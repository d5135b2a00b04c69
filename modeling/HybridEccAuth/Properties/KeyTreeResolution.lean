import HybridEccAuth.Resolution.RfidSchemes
import Mathlib.Algebra.Group.Action.Defs
import Mathlib.Algebra.BigOperators.Group.Finset.Basic
import Mathlib.Algebra.Order.BigOperators.Group.List
import Mathlib.Order.Interval.Finset.Nat

/-!
# Walks in the key tree

A walk by the tags of a node ends at that node unless a smaller sibling on the way has
the same keyed hash (`outcome_descend`), and a walk that ends at a node was led by the
tags of the node (`descend_some`).  A message of a leaf therefore resolves to the peer of
the leaf at a cost of one to `delta` probes for each level.

Nothing in `resolve` asks for one tag for each level: a list that ends early ends at an
inner node, and the number of an inner node is taken for the number of a leaf
(`resolve_sound_iff`).
-/

namespace HybridEccAuth

open StateExcept

namespace KeyTree

variable {C : Crypto} {T : KeyTree} {r : Bytes}

/-- The keyed hash that belongs to a node. -/
def nodeTag (C : Crypto) (T : KeyTree) (r : Bytes) (node : List ℕ) : Bytes :=
  keyedHash C (nodeKey C T.seed node) r

/-- The keyed hashes along the path to a node. -/
def tagsAlong (C : Crypto) (T : KeyTree) (r : Bytes) (node : List ℕ) : List Bytes :=
  (List.range' 1 node.length).map fun level => T.nodeTag C r (node.take level)

/-- No smaller sibling along the path has the same keyed hash. -/
def Unshadowed (C : Crypto) (T : KeyTree) (r : Bytes) (node : List ℕ) : Prop :=
  ∀ level digit, node[level]? = some digit → ∀ digit' < digit,
    T.nodeTag C r (node.take level ++ [digit']) ≠ T.nodeTag C r (node.take (level + 1))

/-- There is one keyed hash for each level. -/
@[simp] lemma length_tagsAlong (node : List ℕ) : (T.tagsAlong C r node).length = node.length := by
  rw [tagsAlong, List.length_map, List.length_range']

/-- A further level adds a keyed hash. -/
lemma tagsAlong_concat (node : List ℕ) (digit : ℕ) : T.tagsAlong C r (node ++ [digit]) =
    T.tagsAlong C r node ++ [T.nodeTag C r (node ++ [digit])] := by
  unfold tagsAlong
  rw [List.length_append, List.length_singleton, List.range'_1_concat, List.map_append,
    List.map_singleton, List.take_of_length_le (by rw [List.length_append]; simp [Nat.add_comm])]
  refine congrArg (· ++ _) (List.map_congr_left fun level hlevel => ?_)
  rw [List.mem_range'_1] at hlevel
  rw [List.take_append_of_le_length (by omega)]

/-- A further level adds a condition on the siblings at that level. -/
lemma unshadowed_concat {node : List ℕ} {digit : ℕ} : T.Unshadowed C r (node ++ [digit]) ↔
    T.Unshadowed C r node ∧ ∀ digit' < digit,
      T.nodeTag C r (node ++ [digit']) ≠ T.nodeTag C r (node ++ [digit]) := by
  have hshort : ∀ level ≤ node.length, (node ++ [digit]).take level = node.take level :=
    fun level hlevel => List.take_append_of_le_length hlevel
  have hwhole : (node ++ [digit]).take (node.length + 1) = node ++ [digit] :=
    List.take_of_length_le (by simp)
  constructor
  · intro h
    constructor
    · intro level d hd digit' hless
      obtain ⟨hlevel, -⟩ := List.getElem?_eq_some_iff.mp hd
      have hstep := h level d (by rw [List.getElem?_append_left hlevel, hd]) digit' hless
      rwa [hshort level (Nat.le_of_lt hlevel), hshort (level + 1) hlevel] at hstep
    · intro digit' hless
      have hstep := h node.length digit List.getElem?_concat_length digit' hless
      rwa [hshort node.length le_rfl, List.take_length, hwhole] at hstep
  · rintro ⟨hnode, hlast⟩ level d hd digit' hless
    obtain ⟨hlevel, -⟩ := List.getElem?_eq_some_iff.mp hd
    rw [List.length_append, List.length_singleton, Nat.lt_succ_iff_lt_or_eq] at hlevel
    rcases hlevel with hlevel | rfl
    · rw [List.getElem?_append_left hlevel] at hd
      rw [hshort level (Nat.le_of_lt hlevel), hshort (level + 1) hlevel]
      exact hnode level d hd digit' hless
    · rw [List.getElem?_concat_length, Option.some_inj] at hd
      rw [hshort node.length le_rfl, List.take_length, hwhole]
      exact hlast digit' (hd ▸ hless)

/-! ## Nodes -/

/-- A path has one digit for each level. -/
@[simp] lemma length_path (i : ℕ) : (T.path i).length = T.depth := Digits.length_expand _ _ _

/-- A path ends at the last level. -/
lemma take_depth_path (i : ℕ) : (T.path i).take T.depth = T.path i :=
  List.take_of_length_le (le_of_eq (length_path i))

/-- A node lies on a level of the tree. -/
lemma length_of_mem_nodeSet {node : List ℕ} (h : node ∈ T.nodeSet) :
    1 ≤ node.length ∧ node.length ≤ T.depth := by
  obtain ⟨i, -, level, hlevel, rfl⟩ := h
  rw [List.mem_range'_1] at hlevel
  rw [List.length_take, length_path]
  omega

/-- A node is a prefix of the path of a leaf. -/
lemma exists_of_mem_nodeSet {node : List ℕ} (h : node ∈ T.nodeSet) :
    ∃ i < T.peers.length, node = (T.path i).take node.length := by
  obtain ⟨i, hi, level, -, rfl⟩ := h
  exact ⟨i, hi, by rw [List.length_take, ← List.take_eq_take_min]⟩

/-- The prefixes of the path of a leaf are nodes. -/
lemma take_path_mem_nodeSet {i level : ℕ} (hi : i < T.peers.length) (hpos : 1 ≤ level)
    (hlevel : level ≤ T.depth) : (T.path i).take level ∈ T.nodeSet :=
  ⟨i, hi, level, by rw [List.mem_range'_1]; omega, rfl⟩

/-- The parent of a node is a node or the root. -/
lemma parent_mem_nodeSet {node : List ℕ} {digit : ℕ} (h : node ++ [digit] ∈ T.nodeSet) :
    node = [] ∨ node ∈ T.nodeSet := by
  have hlength := (length_of_mem_nodeSet h).2
  obtain ⟨i, hi, heq⟩ := exists_of_mem_nodeSet h
  rw [List.length_append, List.length_singleton] at hlength heq
  have hnode : node = (T.path i).take node.length := by
    have htake := congrArg (List.take node.length) heq
    rwa [List.take_left', List.take_take, Nat.min_eq_left (Nat.le_succ _)] at htake
    rfl
  rcases Nat.eq_zero_or_pos node.length with hzero | hpos
  · exact Or.inl (List.length_eq_zero_iff.mp hzero)
  · rw [hnode]
    exact Or.inr (take_path_mem_nodeSet hi hpos (by omega))

/-- The digits of a node are below the branching factor. -/
lemma Built.lt_of_mem_node (hT : T.Built C) {node : List ℕ} (h : node ∈ T.nodeSet) {digit : ℕ}
    (hdigit : digit ∈ node) : digit < T.delta := by
  obtain ⟨i, -, level, -, rfl⟩ := h
  exact Digits.lt_of_mem_expand (lt_of_lt_of_le Nat.zero_lt_two hT.two_le_delta)
    (List.mem_of_mem_take hdigit)

/-- The keyed hash of a node is computed from its key. -/
lemma Built.tag_of_mem (hT : T.Built C) {node : List ℕ} (h : node ∈ T.nodeSet) :
    T.tag C r node = .ok (T.nodeTag C r node) := by
  unfold tag
  rw [(hT.holds.key_iff _ _).mpr ⟨h, rfl⟩]
  rfl

/-! ## One level -/

/-- A probe of a node costs one. -/
lemma Built.outcome_probeChild (hT : T.Built C) {node : List ℕ} {child : ℕ}
    (h : node ++ [child] ∈ T.nodeSet) (tag : Bytes) (probes : ℕ) :
    (T.probeChild C r tag node child).outcome probes =
      (.ok (if T.nodeTag C r (node ++ [child]) = tag then some (node ++ [child]) else none),
        probes + 1) := by
  unfold probeChild
  rw [hT.tag_of_mem h]
  rfl

/-- Children with other keyed hashes are probed in vain. -/
lemma Built.outcome_findSomeM?_none (hT : T.Built C) {node children : List ℕ} {tag : Bytes}
    (h : ∀ child ∈ children, node ++ [child] ∈ T.nodeSet ∧ T.nodeTag C r (node ++ [child]) ≠ tag)
    (probes : ℕ) : (children.findSomeM? (T.probeChild C r tag node)).outcome probes =
      (.ok none, probes + children.length) := by
  induction children generalizing probes with
  | nil => rfl
  | cons child children ih =>
    obtain ⟨⟨hmem, hother⟩, hchildren⟩ := List.forall_mem_cons.mp h
    rw [List.findSomeM?, outcome_bind, hT.outcome_probeChild hmem, if_neg hother]
    dsimp only
    rw [ih hchildren, List.length_cons, Nat.add_assoc, Nat.add_comm 1]

/-- The first child with the keyed hash is found. -/
lemma Built.outcome_level (hT : T.Built C) {node : List ℕ} {digit : ℕ}
    (hmem : node ++ [digit] ∈ T.nodeSet) (hfirst : ∀ digit' < digit,
      T.nodeTag C r (node ++ [digit']) ≠ T.nodeTag C r (node ++ [digit])) (probes : ℕ) :
    ((T.nodes.childrenOf node).findSomeM?
        (T.probeChild C r (T.nodeTag C r (node ++ [digit])) node)).outcome probes =
      (.ok (some (node ++ [digit])), probes + (digit + 1)) := by
  obtain ⟨m, hm, hiff⟩ := hT.holds.children_eq node
  have hlt : digit < m := (hiff digit).mp hmem
  have hsplit : List.range m = List.range digit ++ List.range' digit (m - digit) := by
    have happend := List.range'_append_1 (s := 0) (m := digit) (n := m - digit)
    rw [Nat.zero_add, Nat.add_sub_cancel' (Nat.le_of_lt hlt)] at happend
    rw [List.range_eq_range', List.range_eq_range', happend]
  have hnone : ((List.range digit).findSomeM? (T.probeChild C r (T.nodeTag C r (node ++ [digit]))
      node)).outcome probes = (.ok none, probes + (List.range digit).length) :=
    hT.outcome_findSomeM?_none (fun child hchild =>
      ⟨(hiff child).mpr (lt_trans (List.mem_range.mp hchild) hlt),
        hfirst child (List.mem_range.mp hchild)⟩) probes
  obtain ⟨k, hk⟩ : ∃ k, m - digit = k + 1 := ⟨m - digit - 1, by omega⟩
  rw [hm, hsplit, outcome_findSomeM?_append hnone, hk, List.range'_succ, List.findSomeM?,
    outcome_bind, hT.outcome_probeChild hmem, if_pos rfl, List.length_range, Nat.add_assoc]
  rfl

/-- When no child has the keyed hash, all of them are probed. -/
lemma Built.outcome_level_none (hT : T.Built C) {node : List ℕ} {tag : Bytes}
    (hother : ∀ digit, node ++ [digit] ∈ T.nodeSet → T.nodeTag C r (node ++ [digit]) ≠ tag)
    (probes : ℕ) : ∃ k ≤ T.delta,
      ((T.nodes.childrenOf node).findSomeM? (T.probeChild C r tag node)).outcome probes =
        (.ok none, probes + k) := by
  obtain ⟨m, hm, hiff⟩ := hT.holds.children_eq node
  refine ⟨m, ?_, ?_⟩
  · rcases Nat.eq_zero_or_pos m with rfl | hpos
    · exact Nat.zero_le _
    · have hlast : node ++ [m - 1] ∈ T.nodeSet := (hiff (m - 1)).mpr (Nat.sub_one_lt_of_lt hpos)
      have hlt := hT.lt_of_mem_node hlast (List.mem_append_right node (List.mem_singleton_self _))
      omega
  · rw [hm, hT.outcome_findSomeM?_none (fun child hchild => ?_) probes, List.length_range]
    have hmem := (hiff child).mpr (List.mem_range.mp hchild)
    exact ⟨hmem, hother child hmem⟩

/-- What a level finds is the first child with the keyed hash. -/
lemma Built.level_some (hT : T.Built C) {node node' : List ℕ} {tag : Bytes} {probes probes' : ℕ}
    (h : ((T.nodes.childrenOf node).findSomeM? (T.probeChild C r tag node)).outcome probes =
      (.ok (some node'), probes')) :
    ∃ digit, node' = node ++ [digit] ∧ node' ∈ T.nodeSet ∧ tag = T.nodeTag C r node' ∧
      ∀ digit' < digit, T.nodeTag C r (node ++ [digit']) ≠ T.nodeTag C r node' := by
  by_cases hexists : ∃ digit, node ++ [digit] ∈ T.nodeSet ∧ T.nodeTag C r (node ++ [digit]) = tag
  · classical
    -- the least child with the keyed hash is the one that is found
    obtain ⟨hmem, htag⟩ := Nat.find_spec hexists
    have hfirst : ∀ digit' < Nat.find hexists, T.nodeTag C r (node ++ [digit']) ≠
        T.nodeTag C r (node ++ [Nat.find hexists]) := by
      intro digit' hless heq
      obtain ⟨m, -, hiff⟩ := hT.holds.children_eq node
      have hmem' := (hiff digit').mpr (lt_trans hless ((hiff _).mp hmem))
      exact Nat.find_min hexists hless ⟨hmem', heq.trans htag⟩
    rw [← htag, hT.outcome_level hmem hfirst] at h
    cases h
    exact ⟨_, rfl, hmem, htag.symm, hfirst⟩
  · obtain ⟨k, -, hrun⟩ := hT.outcome_level_none
      (fun digit hmem htag => hexists ⟨digit, hmem, htag⟩) probes
    rw [hrun] at h
    cases h

/-! ## Whole walks -/

/-- The first tag of a walk is used at the node where it begins. -/
lemma outcome_descend_cons (tag : Bytes) (tags : List Bytes) (node : List ℕ) (probes : ℕ) :
    (T.descend C r (tag :: tags) node).outcome probes =
      match ((T.nodes.childrenOf node).findSomeM? (T.probeChild C r tag node)).outcome probes with
      | (.ok (some node'), probes') => (T.descend C r tags node').outcome probes'
      | (.ok none, probes') => (.ok none, probes')
      | (.error e, probes') => (.error e, probes') := by
  rw [descend, outcome_bind]
  rcases ((T.nodes.childrenOf node).findSomeM?
    (T.probeChild C r tag node)).outcome probes with ⟨e | _ | node', probes'⟩ <;> rfl

/-- The last tag of a walk is used at the node that the others lead to. -/
lemma outcome_descend_concat (tags : List Bytes) (tag : Bytes) (node : List ℕ) (probes : ℕ) :
    (T.descend C r (tags ++ [tag]) node).outcome probes =
      match (T.descend C r tags node).outcome probes with
      | (.ok (some node'), probes') => ((T.nodes.childrenOf node').findSomeM?
          (T.probeChild C r tag node')).outcome probes'
      | (.ok none, probes') => (.ok none, probes')
      | (.error e, probes') => (.error e, probes') := by
  induction tags generalizing node probes with
  | nil =>
    rw [List.nil_append, outcome_descend_cons]
    show _ = ((T.nodes.childrenOf node).findSomeM? (T.probeChild C r tag node)).outcome probes
    rcases ((T.nodes.childrenOf node).findSomeM?
      (T.probeChild C r tag node)).outcome probes with ⟨e | _ | node', probes'⟩ <;> rfl
  | cons tag' tags ih =>
    rw [List.cons_append, outcome_descend_cons, outcome_descend_cons]
    rcases ((T.nodes.childrenOf node).findSomeM?
      (T.probeChild C r tag' node)).outcome probes with ⟨e | _ | node', probes'⟩
    · rfl
    · rfl
    · exact ih node' probes'

/-- The tags of a node lead to it, at a cost of one more than its digit on each level. -/
lemma Built.outcome_descend (hT : T.Built C) {node : List ℕ} (hnode : node = [] ∨ node ∈ T.nodeSet)
    (hfirst : T.Unshadowed C r node) (probes : ℕ) :
    (T.descend C r (T.tagsAlong C r node) []).outcome probes =
      (.ok (some node), probes + (node.map (· + 1)).sum) := by
  induction node using List.reverseRecOn with
  | nil => rfl
  | append_singleton node digit ih =>
    have hmem := hnode.resolve_left (by simp)
    rw [unshadowed_concat] at hfirst
    rw [tagsAlong_concat, outcome_descend_concat, ih (parent_mem_nodeSet hmem) hfirst.1]
    dsimp only
    rw [hT.outcome_level hmem hfirst.2, List.map_append, List.sum_append, Nat.add_assoc]
    rfl

/-- A walk that ends at a node was led by the tags of the node. -/
lemma Built.descend_some (hT : T.Built C) {tags : List Bytes} {node : List ℕ} {probes probes' : ℕ}
    (h : (T.descend C r tags []).outcome probes = (.ok (some node), probes')) :
    (node = [] ∨ node ∈ T.nodeSet) ∧ tags = T.tagsAlong C r node ∧ T.Unshadowed C r node := by
  induction tags using List.reverseRecOn generalizing node probes' with
  | nil =>
    cases h
    exact ⟨Or.inl rfl, rfl, fun _ _ hd => by cases hd⟩
  | append_singleton tags tag ih =>
    rw [outcome_descend_concat] at h
    rcases hrun : (T.descend C r tags []).outcome probes with ⟨e | _ | parent, probes₁⟩
    · rw [hrun] at h
      cases h
    · rw [hrun] at h
      cases h
    · rw [hrun] at h
      obtain ⟨-, htags, hparent⟩ := ih hrun
      obtain ⟨digit, rfl, hmem, rfl, hfirst⟩ := hT.level_some h
      exact ⟨Or.inr hmem, by rw [tagsAlong_concat, htags], unshadowed_concat.mpr ⟨hparent, hfirst⟩⟩

/-! ## Messages of the leaves -/

/-- The keys of the tree are different, and so are their keyed hashes of a fresh value. -/
structure CollisionFree (C : Crypto) (T : KeyTree) (r : Bytes) : Prop where
  key_inj : ∀ node node' key, T.nodes.key.get node = some key → T.nodes.key.get node' = some key →
    node = node'
  keyedHash_inj : ∀ node node' key key', T.nodes.key.get node = some key →
    T.nodes.key.get node' = some key' → keyedHash C key r = keyedHash C key' r → key = key'

/-- Without collisions, nodes with the same keyed hash are the same. -/
lemma CollisionFree.nodeTag_inj (hT : T.Built C) (hfree : T.CollisionFree C r)
    {node node' : List ℕ} (h : node ∈ T.nodeSet) (h' : node' ∈ T.nodeSet)
    (heq : T.nodeTag C r node = T.nodeTag C r node') : node = node' := by
  have hget := (hT.holds.key_iff _ _).mpr ⟨h, rfl⟩
  have hget' := (hT.holds.key_iff _ _).mpr ⟨h', rfl⟩
  have hkey := hfree.keyedHash_inj _ _ _ _ hget hget' heq
  exact hfree.key_inj _ _ _ hget (hkey ▸ hget')

/-- Without collisions, no node is shadowed by a sibling. -/
lemma CollisionFree.unshadowed (hT : T.Built C) (hfree : T.CollisionFree C r) {node : List ℕ}
    (hnode : node = [] ∨ node ∈ T.nodeSet) : T.Unshadowed C r node := by
  induction node using List.reverseRecOn with
  | nil =>
    intro _ _ hd
    cases hd
  | append_singleton node digit ih =>
    have hmem := hnode.resolve_left (by simp)
    refine unshadowed_concat.mpr ⟨ih (parent_mem_nodeSet hmem), fun digit' hless heq => ?_⟩
    obtain ⟨m, -, hiff⟩ := hT.holds.children_eq node
    have hmem' := (hiff digit').mpr (lt_trans hless ((hiff digit).mp hmem))
    have hsame := hfree.nodeTag_inj hT hmem' hmem heq
    rw [List.append_cancel_left_eq, List.singleton_inj] at hsame
    exact absurd hsame (Nat.ne_of_lt hless)

/-- The path of a leaf is a node, or the tree has no levels. -/
lemma path_mem_nodeSet {i : ℕ} (hi : i < T.peers.length) :
    T.path i = [] ∨ T.path i ∈ T.nodeSet := by
  rcases Nat.eq_zero_or_pos T.depth with hzero | hpos
  · exact Or.inl (List.length_eq_zero_iff.mp ((length_path i).trans hzero))
  · exact Or.inr (take_depth_path (T := T) i ▸ take_path_mem_nodeSet hi hpos le_rfl)

/-- A device sends the keyed hashes along its path. -/
lemma Built.deviceMessage_eq (hT : T.Built C) {i : ℕ} (hi : i < T.peers.length) (rnd : Urandom) :
    T.deviceMessage C i rnd =
      .ok (rnd.draw rBytes, T.tagsAlong C (rnd.draw rBytes) (T.path i)) := by
  have hlevels : ∀ levels : List ℕ, (∀ level ∈ levels, 1 ≤ level ∧ level ≤ T.depth) →
      levels.mapM (fun level => T.tag C (rnd.draw rBytes) ((T.path i).take level)) =
        .ok (levels.map fun level => T.nodeTag C (rnd.draw rBytes) ((T.path i).take level)) := by
    intro levels hlevels
    induction levels with
    | nil => rfl
    | cons level levels ih =>
      obtain ⟨hlevel, hrest⟩ := List.forall_mem_cons.mp hlevels
      rw [List.mapM_cons, ih hrest, hT.tag_of_mem (take_path_mem_nodeSet hi hlevel.1 hlevel.2)]
      rfl
  unfold deviceMessage
  dsimp only
  rw [hlevels _ fun level hlevel => by rw [List.mem_range'_1] at hlevel; omega, tagsAlong,
    length_path]
  rfl

/-- The number of the digits of a leaf is the leaf. -/
lemma peerAt_path {i : ℕ} (hi : i < T.peers.length) (hfit : T.peers.length ≤ T.delta ^ T.depth) :
    T.peerAt (T.path i) = .ok (T.peers[i]) := by
  unfold peerAt path
  rw [Digits.evaluate_expand, Nat.mod_eq_of_lt (lt_of_lt_of_le hi hfit),
    List.getElem?_eq_getElem hi]

/-- A message of a leaf costs between one and `delta` probes on each level. -/
lemma Built.cost_path (hT : T.Built C) (i : ℕ) :
    T.depth ≤ ((T.path i).map (· + 1)).sum ∧
      ((T.path i).map (· + 1)).sum ≤ T.delta * T.depth := by
  have hlength : ((T.path i).map (· + 1)).length = T.depth := by
    rw [List.length_map, length_path]
  have hdigit : ∀ k ∈ (T.path i).map (· + 1), 1 ≤ k ∧ k ≤ T.delta := by
    intro k hk
    obtain ⟨digit, hmem, rfl⟩ := List.mem_map.mp hk
    have hlt := Digits.lt_of_mem_expand (lt_of_lt_of_le Nat.zero_lt_two hT.two_le_delta) hmem
    exact ⟨Nat.le_add_left 1 digit, hlt⟩
  have hlow := List.card_nsmul_le_sum _ 1 fun k hk => (hdigit k hk).1
  have hhigh := List.sum_le_card_nsmul _ T.delta fun k hk => (hdigit k hk).2
  rw [hlength, smul_eq_mul] at hlow hhigh
  rw [Nat.mul_one] at hlow
  rw [Nat.mul_comm] at hhigh
  exact ⟨hlow, hhigh⟩

/-- Whether there are collisions is checked on the keyed hashes of all keys. -/
lemma collisionFree_of_nodup
    (h : (T.nodes.key.entries.map fun e => keyedHash C e.2 r).Nodup) : T.CollisionFree C r := by
  have hentry : ∀ node node' key key', T.nodes.key.get node = some key →
      T.nodes.key.get node' = some key' → keyedHash C key r = keyedHash C key' r →
      (node, key) = (node', key') := fun node node' key key' hget hget' heq =>
    List.inj_on_of_nodup_map h (Dict.mem_entries_iff.mpr hget) (Dict.mem_entries_iff.mpr hget') heq
  exact ⟨fun node node' key hget hget' => (Prod.mk.inj (hentry _ _ _ _ hget hget' rfl)).1,
    fun node node' key key' hget hget' heq => (Prod.mk.inj (hentry _ _ _ _ hget hget' heq)).2⟩

/-- A message of a leaf resolves to its peer. -/
lemma Built.outcome_resolve (hT : T.Built C) (hfree : T.CollisionFree C r)
    (hfit : T.peers.length ≤ T.delta ^ T.depth) {i : ℕ} (hi : i < T.peers.length) (probes : ℕ) :
    (T.resolve C r (T.tagsAlong C r (T.path i))).outcome probes =
      (.ok (some T.peers[i]), probes + ((T.path i).map (· + 1)).sum) := by
  unfold resolve
  rw [outcome_bind, hT.outcome_descend (path_mem_nodeSet hi)
    (hfree.unshadowed hT (path_mem_nodeSet hi))]
  dsimp only
  rw [peerAt_path hi hfit]
  rfl

/-- Resolution by the key tree is complete and within its stated cost: the message of every leaf
resolves to its peer with one to `delta` probes for each level, leaves have different paths, and a
first tag that no child of the root has ends the walk after at most `delta` probes. -/
theorem leaf_messages_resolve (C : Crypto) (peers : List String) {delta depth : ℕ}
    (hdelta : 2 ≤ delta) (hfit : peers.length ≤ delta ^ depth) (seed : Bytes) :
    (∀ (i : ℕ) (hi : i < peers.length) (rnd : Urandom),
      (init C peers delta depth seed).CollisionFree C (rnd.draw rBytes) →
      ∃ r tags, (init C peers delta depth seed).deviceMessage C i rnd = .ok (r, tags) ∧
        ∀ probes, ∃ k, depth ≤ k ∧ k ≤ delta * depth ∧
          ((init C peers delta depth seed).resolve C r tags).outcome probes =
            (.ok (some peers[i]), probes + k)) ∧
    (∀ i j, i < peers.length → j < peers.length →
      (init C peers delta depth seed).path i = (init C peers delta depth seed).path j → i = j) ∧
    (∀ r tag tags, (∀ child ∈ (init C peers delta depth seed).nodes.childrenOf [],
        (init C peers delta depth seed).tag C r [child] ≠ .ok tag) →
      ∀ probes, ∃ k ≤ delta,
        ((init C peers delta depth seed).resolve C r (tag :: tags)).outcome probes =
          (.ok none, probes + k)) := by
  have hT := built_init C peers hdelta depth seed
  refine ⟨?_, ?_, ?_⟩
  · intro i hi rnd hfree
    refine ⟨_, _, hT.deviceMessage_eq hi rnd, fun probes => ?_⟩
    obtain ⟨hlow, hhigh⟩ := hT.cost_path i
    exact ⟨_, hlow, hhigh, hT.outcome_resolve hfree hfit hi probes⟩
  · intro i j hi hj heq
    exact Digits.expand_inj (lt_of_lt_of_le hi hfit) (lt_of_lt_of_le hj hfit) heq
  · intro r tag tags hother probes
    obtain ⟨m, hm, hiff⟩ := hT.holds.children_eq []
    have hroot : ∀ digit, [] ++ [digit] ∈ (init C peers delta depth seed).nodeSet →
        (init C peers delta depth seed).nodeTag C r ([] ++ [digit]) ≠ tag := by
      intro digit hmem heq
      apply hother digit (hm ▸ List.mem_range.mpr ((hiff digit).mp hmem))
      rw [List.nil_append] at hmem heq
      rw [hT.tag_of_mem hmem, heq]
    obtain ⟨k, hk, hrun⟩ := hT.outcome_level_none hroot probes
    refine ⟨k, hk, ?_⟩
    unfold resolve
    rw [outcome_bind, outcome_descend_cons, hrun]
    rfl

/-- The message of the third of three leaves. -/
theorem leaf_messages_resolve_threeLeaves : ∃ r tags,
    (init .plain ["a", "b", "c"] 2 2 (asciiBytes "tree")).deviceMessage .plain 2 .zeros =
      .ok (r, tags) ∧
    ∀ probes, ∃ k, 2 ≤ k ∧ k ≤ 2 * 2 ∧
      ((init .plain ["a", "b", "c"] 2 2 (asciiBytes "tree")).resolve .plain r tags).outcome probes =
        (.ok (some "c"), probes + k) :=
  (leaf_messages_resolve .plain ["a", "b", "c"] (by decide) (by decide) (asciiBytes "tree")).1 2
    (by decide) .zeros (collisionFree_of_nodup (by decide +kernel))

/-! ## Soundness -/

/-- A node stands for the peer at the number with its digits. -/
lemma peerAt_eq_ok_iff {node : List ℕ} {peer : String} :
    T.peerAt node = .ok peer ↔ T.peers[Digits.evaluate T.delta node]? = some peer := by
  unfold peerAt
  rcases T.peers[Digits.evaluate T.delta node]? with _ | p
  · simp
  · simp

/-- A walk by the tags of an inner node resolves to the peer whose number has the digits of that
node. -/
lemma Built.exists_resolve_take (hT : T.Built C) {i level : ℕ} (hi : i < T.peers.length)
    (hlevel : level ≤ T.depth) (hfirst : T.Unshadowed C r ((T.path i).take level)) (probes : ℕ) :
    ∃ peer probes', (T.resolve C r (T.tagsAlong C r ((T.path i).take level))).outcome probes =
      (.ok (some peer), probes') := by
  have hnode : (T.path i).take level = [] ∨ (T.path i).take level ∈ T.nodeSet := by
    rcases Nat.eq_zero_or_pos level with rfl | hpos
    · exact Or.inl rfl
    · exact Or.inr (take_path_mem_nodeSet hi hpos hlevel)
  have hindex : Digits.evaluate T.delta ((T.path i).take level) < T.peers.length := by
    rw [path, Digits.take_expand _ _ hlevel, Digits.evaluate_expand]
    exact lt_of_le_of_lt ((Nat.mod_le _ _).trans (Nat.div_le_self _ _)) hi
  refine ⟨T.peers[Digits.evaluate T.delta ((T.path i).take level)],
    probes + (((T.path i).take level).map (· + 1)).sum, ?_⟩
  unfold resolve peerAt
  rw [outcome_bind, hT.outcome_descend hnode hfirst]
  dsimp only
  rw [List.getElem?_eq_getElem hindex]
  rfl

/-- A resolved list is the tags of a prefix of the path of a leaf; when it has one tag for each
level, it is resolved to the peer of that leaf. -/
lemma Built.exists_of_resolve (hT : T.Built C) {tags : List Bytes} {peer : String}
    {probes probes' : ℕ} (h : (T.resolve C r tags).outcome probes = (.ok (some peer), probes')) :
    ∃ i < T.peers.length, ∃ level ≤ T.depth, tags = T.tagsAlong C r ((T.path i).take level) ∧
      T.Unshadowed C r ((T.path i).take level) ∧ (level = T.depth → T.peers[i]? = some peer) := by
  unfold resolve at h
  rw [outcome_bind] at h
  rcases hrun : (T.descend C r tags []).outcome probes with ⟨e | _ | node, probes₁⟩
  · rw [hrun] at h
    cases h
  · rw [hrun] at h
    cases h
  · rw [hrun] at h
    obtain ⟨hnode, htags, hfirst⟩ := hT.descend_some hrun
    have hpeer : T.peers[Digits.evaluate T.delta node]? = some peer := by
      dsimp only at h
      rcases hat : T.peerAt node with e | p
      · rw [hat] at h
        cases h
      · rw [hat] at h
        cases h
        exact peerAt_eq_ok_iff.mp hat
    obtain ⟨hlt, -⟩ := List.getElem?_eq_some_iff.mp hpeer
    rcases hnode with rfl | hmem
    · refine ⟨0, lt_of_le_of_lt (Nat.zero_le _) hlt, 0, Nat.zero_le _, htags, hfirst, ?_⟩
      intro _
      exact hpeer
    · -- the leaf of the number that was computed has the path of the leaf that is known
      obtain ⟨i, hi, hshort⟩ := exists_of_mem_nodeSet hmem
      have hle := (length_of_mem_nodeSet hmem).2
      rcases Nat.lt_or_eq_of_le hle with hless | hdepth
      · exact ⟨i, hi, node.length, hle, hshort ▸ htags, hshort ▸ hfirst,
          fun heq => absurd heq (Nat.ne_of_lt hless)⟩
      · have hwhole : node = T.path i := by
          rw [hshort, hdepth, take_depth_path]
        have hindex : Digits.evaluate T.delta node = i % T.delta ^ T.depth := by
          rw [hwhole, path, Digits.evaluate_expand]
        have hpath : (T.path (i % T.delta ^ T.depth)).take T.depth = node := by
          rw [take_depth_path, path, Digits.expand_mod, hwhole, path]
        rw [hindex] at hpeer hlt
        exact ⟨_, hlt, T.depth, le_rfl, hpath.symm ▸ htags, hpath.symm ▸ hfirst, fun _ => hpeer⟩

/-- A resolved list is the list of one keyed hash for each level of the path of a leaf of the
resolved peer, exactly unless the list stops at an inner node on the path of some leaf, reached
without a smaller sibling of the same keyed hash. -/
theorem resolve_sound_iff (C : Crypto) (peers : List String) {delta : ℕ} (hdelta : 2 ≤ delta)
    (depth : ℕ) (seed r : Bytes) (tags : List Bytes) :
    (∀ peer probes probes',
      ((init C peers delta depth seed).resolve C r tags).outcome probes =
        (.ok (some peer), probes') →
      ∃ i, peers[i]? = some peer ∧ tags = (init C peers delta depth seed).tagsAlong C r
        ((init C peers delta depth seed).path i)) ↔
    ¬ ∃ i < peers.length, ∃ level < depth,
      tags = (init C peers delta depth seed).tagsAlong C r
        (((init C peers delta depth seed).path i).take level) ∧
      (init C peers delta depth seed).Unshadowed C r
        (((init C peers delta depth seed).path i).take level) := by
  have hT := built_init C peers hdelta depth seed
  constructor
  · rintro h ⟨i, hi, level, hlevel, rfl, hfirst⟩
    obtain ⟨peer, probes', hrun⟩ := hT.exists_resolve_take hi (Nat.le_of_lt hlevel) hfirst 0
    obtain ⟨j, -, htags⟩ := h peer 0 probes' hrun
    have hlength := congrArg List.length htags
    rw [length_tagsAlong, length_tagsAlong, List.length_take, length_path, length_path] at hlength
    exact absurd hlength (Nat.ne_of_lt (lt_of_le_of_lt (Nat.min_le_left _ _) hlevel))
  · intro h peer probes probes' hrun
    obtain ⟨i, hi, level, hle, htags, hfirst, hpeer⟩ := hT.exists_of_resolve hrun
    rcases Nat.lt_or_eq_of_le hle with hless | hwhole
    · exact absurd ⟨i, hi, level, hless, htags, hfirst⟩ h
    · exact ⟨i, hpeer hwhole, by rw [htags, hwhole, take_depth_path]⟩

/-- A list of at least one tag for each level does not stop at an inner node. -/
lemma not_inner_of_length {peers : List String} {delta depth : ℕ} {seed r : Bytes}
    {tags : List Bytes}
    (h : depth ≤ tags.length) : ¬ ∃ i < peers.length, ∃ level < depth,
      tags = (init C peers delta depth seed).tagsAlong C r
        (((init C peers delta depth seed).path i).take level) ∧
      (init C peers delta depth seed).Unshadowed C r
        (((init C peers delta depth seed).path i).take level) := by
  rintro ⟨i, -, level, hlevel, htags, -⟩
  have hlength := congrArg List.length htags
  rw [length_tagsAlong, List.length_take] at hlength
  exact absurd hlength
    (Nat.ne_of_gt (lt_of_lt_of_le (lt_of_le_of_lt (Nat.min_le_left _ _) hlevel) h))

/-- With two leaves on one level, the message of the second one does not stop at an inner node. -/
theorem resolve_sound_iff_twoLeaves :
    ((init .plain ["a", "b"] 2 1 (asciiBytes "tree")).resolve .plain []
        ((init .plain ["a", "b"] 2 1 (asciiBytes "tree")).tagsAlong .plain [] [1])).outcome 0 =
      (.ok (some "b"), 2) ∧
    ∃ i, ["a", "b"][i]? = some "b" ∧
      (init .plain ["a", "b"] 2 1 (asciiBytes "tree")).tagsAlong .plain [] [1] =
        (init .plain ["a", "b"] 2 1 (asciiBytes "tree")).tagsAlong .plain []
          ((init .plain ["a", "b"] 2 1 (asciiBytes "tree")).path i) := by
  have hrun : ((init .plain ["a", "b"] 2 1 (asciiBytes "tree")).resolve .plain []
      ((init .plain ["a", "b"] 2 1 (asciiBytes "tree")).tagsAlong .plain [] [1])).outcome 0 =
        (.ok (some "b"), 2) :=
    Prod.ext (toOption_eq_some_iff.mp (by decide +kernel)) (by decide +kernel)
  have hlength : 1 ≤
      ((init .plain ["a", "b"] 2 1 (asciiBytes "tree")).tagsAlong .plain [] [1]).length := by
    rw [length_tagsAlong]
    decide
  exact ⟨hrun, (resolve_sound_iff .plain ["a", "b"] (by decide) 1 (asciiBytes "tree") [] _).mpr
    (not_inner_of_length hlength) "b" 0 2 hrun⟩

/-- The empty list is resolved to the first peer. -/
theorem resolve_of_no_tags : ¬ ∀ peer probes probes',
    ((init .plain ["a", "b"] 2 1 (asciiBytes "tree")).resolve .plain [] []).outcome probes =
      (.ok (some peer), probes') →
    ∃ i, ["a", "b"][i]? = some peer ∧
      [] = (init .plain ["a", "b"] 2 1 (asciiBytes "tree")).tagsAlong .plain []
        ((init .plain ["a", "b"] 2 1 (asciiBytes "tree")).path i) := by
  intro h
  obtain ⟨i, -, htags⟩ := h "a" 0 0 rfl
  have hlength := congrArg List.length htags
  rw [length_tagsAlong, length_path] at hlength
  exact absurd hlength (by decide)

/-! ## Storage -/

/-- The state of the key tree in the cost model: a key for each node above the leaves. -/
def costModelBytes (delta n d : ℕ) : ℕ :=
  keyBytes * ∑ level ∈ Finset.Ico 1 d, ⌈(n : ℚ) / delta ^ (d - level)⌉₊

/-- The nodes above the leaves are the prefixes that are shorter than a path. -/
lemma mem_nodeSet_iff {node : List ℕ} : node ∈ T.nodeSet ∧ node.length < T.depth ↔
    ∃ level ∈ Finset.Ico 1 T.depth,
      node ∈ Digits.prefixes T.delta T.depth T.peers.length level := by
  simp only [Digits.prefixes, Finset.mem_image, Finset.mem_range, Finset.mem_Ico]
  constructor
  · rintro ⟨hmem, hless⟩
    obtain ⟨i, hi, heq⟩ := exists_of_mem_nodeSet hmem
    exact ⟨node.length, ⟨(length_of_mem_nodeSet hmem).1, hless⟩, i, hi, heq.symm⟩
  · rintro ⟨level, ⟨hpos, hless⟩, i, hi, rfl⟩
    refine ⟨take_path_mem_nodeSet hi hpos (Nat.le_of_lt hless), ?_⟩
    exact lt_of_le_of_lt (List.length_take_le _ _) hless

/-- The keys of the tree are those of the prefixes of the paths. -/
lemma Built.countP_keys (hT : T.Built C) :
    T.nodes.key.keys.countP (fun node => node.length < T.depth) =
      ((Finset.Ico 1 T.depth).biUnion
        (Digits.prefixes T.delta T.depth T.peers.length)).card := by
  have hnodup : (T.nodes.key.keys.filter fun node => node.length < T.depth).Nodup :=
    T.nodes.key.nodup.filter _
  rw [List.countP_eq_length_filter, ← List.toFinset_card_of_nodup hnodup]
  refine congrArg Finset.card (Finset.ext fun node => ?_)
  rw [List.mem_toFinset, List.mem_filter, Dict.mem_keys_iff, Finset.mem_biUnion, ← mem_nodeSet_iff,
    decide_eq_true_iff]
  refine and_congr_left fun _ => ⟨?_, fun hmem => ⟨_, (hT.holds.key_iff _ _).mpr ⟨hmem, rfl⟩⟩⟩
  rintro ⟨key, hkey⟩
  exact ((hT.holds.key_iff _ _).mp hkey).1

/-- The storage of the tree is what the cost model writes for it. -/
theorem storageBytes_eq (C : Crypto) (peers : List String) {delta depth : ℕ} (hdelta : 2 ≤ delta)
    (hfit : peers.length ≤ delta ^ depth) (seed : Bytes) :
    (init C peers delta depth seed).storageBytes = costModelBytes delta peers.length depth := by
  have hT := built_init C peers hdelta depth seed
  have hpos : 0 < delta := lt_of_lt_of_le Nat.zero_lt_two hdelta
  have hdisjoint : Set.PairwiseDisjoint (Finset.Ico 1 depth : Set ℕ)
      (Digits.prefixes delta depth peers.length) := by
    intro level hlevel level' hlevel' hne
    rw [Finset.mem_coe, Finset.mem_Ico] at hlevel hlevel'
    refine Finset.disjoint_left.mpr fun node hmem hmem' => hne ?_
    exact (Digits.length_of_mem_prefixes (Nat.le_of_lt hlevel.2) hmem).symm.trans
      (Digits.length_of_mem_prefixes (Nat.le_of_lt hlevel'.2) hmem')
  unfold storageBytes costModelBytes
  rw [hT.countP_keys]
  refine congrArg (keyBytes * ·) ((Finset.card_biUnion hdisjoint).trans ?_)
  apply Finset.sum_congr rfl
  intro level hlevel
  rw [Finset.mem_Ico] at hlevel
  exact Digits.card_prefixes hpos (Nat.le_of_lt hlevel.2) hfit

/-- The two inner nodes of a tree of three leaves. -/
theorem storageBytes_eq_threeLeaves :
    (init .plain ["a", "b", "c"] 2 2 (asciiBytes "tree")).storageBytes = costModelBytes 2 3 2 :=
  storageBytes_eq .plain ["a", "b", "c"] (by decide) (by decide) (asciiBytes "tree")

end KeyTree

end HybridEccAuth
