import HybridEccAuth.Crypto.Primitives
import HybridEccAuth.Data.Dict
import HybridEccAuth.Library.Digits
import HybridEccAuth.Library.StateExcept

/-!
# Schemes with a fresh value

The randomized hash lock, in which the device sends a fresh value and its keyed hash, and the server
tries every key.  The key tree, in which the device sends a fresh value and one keyed hash of it for
each level of a tree of keys.  The leaf `i` has the path of the base-`delta` digits of `i`; the
constructor inserts the prefixes of these paths (`KeyNodes.insertNode`), each with a key of its own,
and `resolve` walks down the tree by the tags.  The depth is a parameter, since the constructor
finds it with a floating-point logarithm.

`KeyNodes.Holds` is the invariant of the construction: the keys are those of a set of
nodes, and the children of a node are the digits below some bound, in order.
`outcome_descend_iff` says where a walk ends.
-/

namespace HybridEccAuth

open StateExcept

/-- The size of the fresh value in bytes. -/
def rBytes : ℕ := 16

/-- The size of a key in bytes. -/
def keyBytes : ℕ := 32

/-- `_h`: the keyed hash. -/
def keyedHash (C : Crypto) (key r : Bytes) : Bytes := C.sha256 (key ++ r)

/-- `RandomizedHashLock`: the keys by peer, and the counter of probes. -/
structure RandomizedHashLock where
  keys : Dict String Bytes
  probes : ℕ := 0

namespace RandomizedHashLock

/-- `device_message`: the fresh value and its keyed hash. -/
def deviceMessage (C : Crypto) (key : Bytes) (rnd : Urandom) : Bytes × Bytes :=
  (rnd.draw rBytes, keyedHash C key (rnd.draw rBytes))

/-- The first peer under whose key the fresh value has the hash; every key tried counts. -/
def probeKeys (C : Crypto) (r tag : Bytes) : List (String × Bytes) → ℕ → Option String × ℕ
  | [], probes => (none, probes)
  | (peer, key) :: keys, probes =>
    if keyedHash C key r = tag then (some peer, probes + 1) else probeKeys C r tag keys (probes + 1)

/-- `RandomizedHashLock.resolve`. -/
def resolve (C : Crypto) (L : RandomizedHashLock) (r tag : Bytes) :
    Option String × RandomizedHashLock :=
  match probeKeys C r tag L.keys.entries L.probes with
  | (found, probes) => (found, { L with probes := probes })

/-- `storage_bytes`: nothing is kept beyond the keys. -/
def storageBytes (_ : RandomizedHashLock) : ℕ := 0

/-- `extra_m1_bytes`: the fresh value. -/
def extraM1Bytes (_ : ℕ) : ℕ := rBytes

end RandomizedHashLock

/-- `repr` of a tuple of integers. -/
def reprTuple : List ℕ → String
  | [] => "()"
  | [digit] => "(" ++ toString digit ++ ",)"
  | digits => "(" ++ ", ".intercalate (digits.map toString) ++ ")"

/-- The key of a node. -/
def nodeKey (C : Crypto) (seed : Bytes) (node : List ℕ) : Bytes :=
  C.sha256 (seed ++ asciiBytes (reprTuple node))

/-- The nodes of a key tree: their keys, and the last digits of their children in the order in which
these were first seen. -/
structure KeyNodes where
  key : Dict (List ℕ) Bytes := Dict.empty
  children : Dict (List ℕ) (List ℕ) := Dict.empty

namespace KeyNodes

/-- The insertion of a node of at least one digit, unless it has been seen. -/
def insertNode (C : Crypto) (seed : Bytes) (t : KeyNodes) (node : List ℕ) : KeyNodes :=
  if (t.key.get node).isSome then t
  else
    { key := t.key.set node (nodeKey C seed node)
      children := t.children.set node.dropLast
        ((t.children.get node.dropLast).getD [] ++ [node.getLastD 0]) }

/-- The insertion of the prefixes of a path. -/
def insertPath (C : Crypto) (seed : Bytes) (depth : ℕ) (t : KeyNodes) (path : List ℕ) : KeyNodes :=
  (List.range' 1 depth).foldl (fun t level => t.insertNode C seed (path.take level)) t

/-- The children of a node. -/
def childrenOf (t : KeyNodes) (node : List ℕ) : List ℕ := (t.children.get node).getD []

/-- The keys are those of a set of nodes, and the children of a node are the digits below a
bound. -/
structure Holds (C : Crypto) (seed : Bytes) (nodes : Set (List ℕ)) (t : KeyNodes) : Prop where
  key_iff : t.key.Represents fun node key => node ∈ nodes ∧ key = nodeKey C seed node
  children_eq : ∀ node, ∃ m, t.childrenOf node = List.range m ∧
    ∀ digit, node ++ [digit] ∈ nodes ↔ digit < m

variable {C : Crypto} {seed : Bytes} {nodes : Set (List ℕ)} {t : KeyNodes}

/-- Without nodes there are no keys and no children. -/
lemma holds_empty : Holds C seed ∅ {} where
  key_iff := Dict.represents_empty.congr fun _ _ => ⟨False.elim, fun h => h.1⟩
  children_eq _ := ⟨0, rfl, fun _ => ⟨False.elim, fun h => absurd h (Nat.not_lt_zero _)⟩⟩

/-- A set of nodes may be replaced by an equal one. -/
lemma Holds.congr (h : Holds C seed nodes t) {nodes' : Set (List ℕ)}
    (heq : ∀ node, node ∈ nodes ↔ node ∈ nodes') : Holds C seed nodes' t :=
  Set.ext heq ▸ h

/-- A node that follows its smaller siblings is inserted. -/
lemma Holds.insertNode (h : Holds C seed nodes t) {node : List ℕ} {digit : ℕ}
    (hsmaller : ∀ digit' < digit, node ++ [digit'] ∈ nodes) :
    Holds C seed (insert (node ++ [digit]) nodes) (t.insertNode C seed (node ++ [digit])) := by
  unfold KeyNodes.insertNode
  split_ifs with hseen
  · obtain ⟨key, hkey⟩ := Option.isSome_iff_exists.mp hseen
    rw [Set.insert_eq_of_mem ((h.key_iff _ _).mp hkey).1]
    exact h
  have hnew : node ++ [digit] ∉ nodes := by
    intro hmem
    rw [(h.key_iff _ _).mpr ⟨hmem, rfl⟩] at hseen
    exact hseen rfl
  constructor
  · refine (h.key_iff.set fun w hw => hw.2).congr fun node' key => ?_
    rw [Set.mem_insert_iff]
    constructor
    · rintro (⟨hmem, rfl⟩ | ⟨rfl, rfl⟩)
      · exact ⟨Or.inr hmem, rfl⟩
      · exact ⟨Or.inl rfl, rfl⟩
    · rintro ⟨rfl | hmem, rfl⟩
      · exact Or.inr ⟨rfl, rfl⟩
      · exact Or.inl ⟨hmem, rfl⟩
  · intro parent
    obtain ⟨m, hm, hmem⟩ := h.children_eq parent
    simp only [childrenOf, List.dropLast_concat, List.getLastD_concat, Dict.get_set,
      Set.mem_insert_iff]
    split_ifs with hparent
    · -- the new digit is the bound of the digits that the node had
      subst hparent
      obtain rfl : m = digit := by
        refine le_antisymm (Nat.le_of_not_lt fun hlt => hnew ((hmem _).mpr hlt)) ?_
        exact Nat.le_of_not_lt fun hlt => lt_irrefl m ((hmem m).mp (hsmaller m hlt))
      refine ⟨m + 1, ?_, fun digit' => ?_⟩
      · rw [Option.getD_some, List.range_succ, ← hm]
        rfl
      · rw [hmem, List.append_cancel_left_eq, List.singleton_inj, Nat.lt_succ_iff_lt_or_eq, or_comm]
    · refine ⟨m, hm, fun digit' => ?_⟩
      rw [hmem, or_iff_right]
      exact fun heq => hparent (List.append_inj_left' heq rfl)

/-- The prefixes of a path are inserted, when the smaller siblings of each of them are known. -/
lemma Holds.insertPath (h : Holds C seed nodes t) {depth : ℕ} {path : List ℕ}
    (hlength : path.length = depth)
    (hsmaller : ∀ level digit, path[level]? = some digit →
      ∀ digit' < digit, path.take level ++ [digit'] ∈ nodes) :
    Holds C seed (nodes ∪ {node | ∃ level ∈ List.range' 1 depth, node = path.take level})
      (t.insertPath C seed depth path) := by
  unfold KeyNodes.insertPath
  have hlevels : ∀ k ≤ depth,
      Holds C seed (nodes ∪ {node | ∃ level ∈ List.range' 1 k, node = path.take level})
        ((List.range' 1 k).foldl (fun t level => t.insertNode C seed (path.take level)) t) := by
    intro k
    induction k with
    | zero =>
      intro _
      apply h.congr
      intro node
      simp
    | succ k ih =>
      intro hk
      have hlt : k < path.length := by omega
      have htake : path.take (1 + k) = path.take k ++ [path[k]] := by
        rw [Nat.add_comm, List.take_succ_eq_append_getElem hlt]
      rw [List.range'_1_concat, List.foldl_append, List.foldl_cons, List.foldl_nil, htake]
      refine ((ih (by omega)).insertNode fun digit hdigit => ?_).congr fun node => ?_
      · exact Or.inl (hsmaller k _ (List.getElem?_eq_getElem hlt) digit hdigit)
      · simp only [Set.mem_insert_iff, Set.mem_union, Set.mem_ofPred_eq, List.mem_append,
          List.mem_singleton, or_and_right, exists_or, exists_eq_left, htake]
        exact or_comm.trans or_assoc
  exact hlevels depth le_rfl

end KeyNodes

/-- A key tree. -/
structure KeyTree where
  peers : List String
  delta : ℕ
  depth : ℕ
  seed : Bytes
  nodes : KeyNodes := {}

namespace KeyTree

/-- `path`: the digits of the number of a leaf. -/
def path (T : KeyTree) (i : ℕ) : List ℕ := Digits.expand T.delta T.depth i

/-- The constructor: the paths of all leaves are inserted. -/
def init (C : Crypto) (peers : List String) (delta depth : ℕ) (seed : Bytes) : KeyTree :=
  let T : KeyTree := { peers := peers, delta := delta, depth := depth, seed := seed }
  { T with
    nodes := (List.range peers.length).foldl (fun t i => t.insertPath C seed depth (T.path i)) {} }

/-- The keyed hash of the fresh value under the key of a node. -/
def tag (C : Crypto) (T : KeyTree) (r : Bytes) (node : List ℕ) : Except Exc Bytes :=
  match T.nodes.key.get node with
  | some key => .ok (keyedHash C key r)
  | none => .error (.ofLibrary .keyError)

/-- `device_message`: the fresh value and the keyed hash for each level. -/
def deviceMessage (C : Crypto) (T : KeyTree) (i : ℕ) (rnd : Urandom) :
    Except Exc (Bytes × List Bytes) := do
  let r := rnd.draw rBytes
  let tags ← (List.range' 1 T.depth).mapM fun level => T.tag C r ((T.path i).take level)
  return (r, tags)

/-- One probe: the child of a node, if its keyed hash is the tag. -/
def probeChild (C : Crypto) (T : KeyTree) (r tag : Bytes) (node : List ℕ) (child : ℕ) :
    StateExcept Exc ℕ (Option (List ℕ)) := do
  StateExcept.modifyState fun probes => probes + 1
  let hash ← StateExcept.lift (T.tag C r (node ++ [child]))
  return if hash = tag then some (node ++ [child]) else none

/-- The walk down the tree, one tag for each level. -/
def descend (C : Crypto) (T : KeyTree) (r : Bytes) :
    List Bytes → List ℕ → StateExcept Exc ℕ (Option (List ℕ))
  | [], node => return some node
  | tag :: tags, node => do
    match ← (T.nodes.childrenOf node).findSomeM? (T.probeChild C r tag node) with
    | none => return none
    | some node => descend C T r tags node

/-- The peer whose number has the digits of a node. -/
def peerAt (T : KeyTree) (node : List ℕ) : Except Exc String :=
  match T.peers[Digits.evaluate T.delta node]? with
  | some peer => .ok peer
  | none => .error (.ofLibrary .indexError)

/-- `KeyTree.resolve`, on the counter of probes. -/
def resolve (C : Crypto) (T : KeyTree) (r : Bytes) (tags : List Bytes) :
    StateExcept Exc ℕ (Option String) := do
  match ← T.descend C r tags [] with
  | none => return none
  | some node => do
    let peer ← StateExcept.lift (T.peerAt node)
    return some peer

/-- `storage_bytes`: the keys of the internal nodes. -/
def storageBytes (T : KeyTree) : ℕ :=
  keyBytes * T.nodes.key.keys.countP fun node => node.length < T.depth

/-- The nodes of the tree: the prefixes of the paths of the leaves. -/
def nodeSet (T : KeyTree) : Set (List ℕ) :=
  {node | ∃ i < T.peers.length, ∃ level ∈ List.range' 1 T.depth, node = (T.path i).take level}

/-- The tree as its constructor leaves it. -/
structure Built (C : Crypto) (T : KeyTree) : Prop where
  two_le_delta : 2 ≤ T.delta
  holds : T.nodes.Holds C T.seed T.nodeSet

/-- The constructor builds the tree. -/
theorem built_init (C : Crypto) (peers : List String) {delta : ℕ} (hdelta : 2 ≤ delta) (depth : ℕ)
    (seed : Bytes) : (init C peers delta depth seed).Built C := by
  refine ⟨hdelta, ?_⟩
  have hpos : 0 < delta := by omega
  have hpaths : ∀ n, KeyNodes.Holds C seed
      {node | ∃ i < n, ∃ level ∈ List.range' 1 depth, node =
        (Digits.expand delta depth i).take level}
      ((List.range n).foldl
        (fun t i => t.insertPath C seed depth (Digits.expand delta depth i)) {}) := by
    intro n
    induction n with
    | zero => exact KeyNodes.holds_empty.congr fun node => by simp
    | succ n ih =>
      rw [List.range_succ, List.foldl_append, List.foldl_cons, List.foldl_nil]
      refine (ih.insertPath (Digits.length_expand _ _ _) ?_).congr fun node => ?_
      · intro level digit hdigit digit' hless
        obtain ⟨hlevel, -⟩ := List.getElem?_eq_some_iff.mp hdigit
        rw [Digits.length_expand] at hlevel
        rw [Digits.getElem?_expand delta n hlevel, Option.some_inj] at hdigit
        obtain ⟨m, hm, htake⟩ := Digits.exists_take_expand_of_lt hpos hlevel (hdigit ▸ hless)
        exact ⟨m, hm, level + 1, by rw [List.mem_range'_1]; omega, htake.symm⟩
      · simp only [Set.mem_union, Set.mem_ofPred_eq, Nat.lt_succ_iff_lt_or_eq, or_and_right,
          exists_or, exists_eq_left]
  exact hpaths peers.length

end KeyTree

end HybridEccAuth
