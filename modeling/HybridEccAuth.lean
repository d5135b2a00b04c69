import HybridEccAuth.Library.StateExcept
import HybridEccAuth.Library.LossyHandshake
import HybridEccAuth.Library.Scan
import HybridEccAuth.Library.Machine
import HybridEccAuth.Library.Correspondence
import HybridEccAuth.Data.Dict
import HybridEccAuth.Data.Bytes
import HybridEccAuth.Data.Base64
import HybridEccAuth.Data.Text
import HybridEccAuth.Data.Json
import HybridEccAuth.Data.JsonRoundTrip
import HybridEccAuth.Data.JsonTree
import HybridEccAuth.Data.Hex
import HybridEccAuth.Protocol.Errors
import HybridEccAuth.Crypto.Primitives
import HybridEccAuth.Protocol.Messages
import HybridEccAuth.Storage.SessionLog
import HybridEccAuth.Protocol.Ta
import HybridEccAuth.Storage.KeyStore
import HybridEccAuth.Protocol.Entity
import HybridEccAuth.Resolution.Probing
import HybridEccAuth.Resolution.PidTable
import HybridEccAuth.Resolution.CounterTable
import HybridEccAuth.Resolution.Clock
import HybridEccAuth.Resolution.TimeMemory
import HybridEccAuth.Resolution.Resolver
import HybridEccAuth.Protocol.Server
import HybridEccAuth.Protocol.Device
import HybridEccAuth.Protocol.World
import HybridEccAuth.Demo.Transport
import HybridEccAuth.Demo.Framing
import HybridEccAuth.Demo.DeviceNode
import HybridEccAuth.Demo.ServerNode
import HybridEccAuth.Properties.TableRefinement
import HybridEccAuth.Properties.ClockReplay
import HybridEccAuth.Properties.CrashFreedom
import HybridEccAuth.Properties.Agreement
import HybridEccAuth.Properties.SessionKeys
import HybridEccAuth.Properties.Rejections
import HybridEccAuth.Properties.BlockList
import HybridEccAuth.Properties.Responses
import HybridEccAuth.Properties.PeerIndependence
import HybridEccAuth.HeaProto.Base64
import HybridEccAuth.HeaProto.JsonField
import HybridEccAuth.HeaProto.Device
import HybridEccAuth.HeaProto.WireTexts
import HybridEccAuth.Properties.DeviceAgreement
import HybridEccAuth.Properties.EnvelopeReading
import HybridEccAuth.Properties.ResponseReading
import HybridEccAuth.HeaProto.Checked
import HybridEccAuth.Properties.BufferSafety
import HybridEccAuth.Library.Rainbow
import HybridEccAuth.Properties.RainbowLookup
import HybridEccAuth.Properties.CounterTableCost
import HybridEccAuth.Properties.CostModel
import HybridEccAuth.Properties.CostFormulas
import HybridEccAuth.Library.Cost
import HybridEccAuth.Properties.RainbowCost
import HybridEccAuth.Library.Digits
import HybridEccAuth.Resolution.RfidSchemes
import HybridEccAuth.Resolution.CostModel
import HybridEccAuth.Properties.KeyTreeResolution
import HybridEccAuth.Properties.HonestRequests
import HybridEccAuth.Properties.ClockCompleteness
import HybridEccAuth.Properties.CounterCompleteness
import HybridEccAuth.HeaProto.Firmware
import HybridEccAuth.Properties.PowerLoss
import HybridEccAuth.Library.Symbolic
import HybridEccAuth.Properties.Containment
import HybridEccAuth.Properties.HonestResponses
import HybridEccAuth.Protocol.LossyNetwork
import HybridEccAuth.Protocol.DesyncCheck
import HybridEccAuth.Properties.LossyRuns
import HybridEccAuth.Properties.LossLaw
import HybridEccAuth.Properties.Desynchronisation
import HybridEccAuth.Demo.TaCli
import HybridEccAuth.Demo.Authenticate
import HybridEccAuth.Properties.Enrollment
import HybridEccAuth.Properties.Connections
import HybridEccAuth.Properties.DemoRuns
