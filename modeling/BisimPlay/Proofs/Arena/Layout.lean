import BisimPlay.Proofs.Arena.Completeness
import Mathlib.Data.List.Lattice
import Mathlib.Data.List.Pairwise
import Mathlib.Data.List.Perm.Subperm

/-!
# What an arena holds

The arena of two processes holds the positions that a play can reach and nothing else.
`IsLaidOut` says so in full: the expansion of node after node comes to an end, the
hyperedges of each node are those of its position, a pair is one node, an attack is a
target once, and every node can be reached from the root.

Completeness is known from the targets of a finished arena. That nothing is there in
addition is proved as the arena grows: each node but the root is a target of a node before
it (`IsRooted`). That an attack is a target only once is counted: the targets that are
attacks are as many as the attacks, and every attack is among them.
-/

namespace BisimPlay

namespace Arena

variable {attacks answers : ProcessId → List Transition} {root : Position}
  {arena next : Arena} {m n : NodeId} {left right : ProcessId}

def nodes (arena : Arena) : List NodeId := (List.range arena.size).map .ofIndex

def LeadsTo (arena : Arena) (m n : NodeId) : Prop := n ∈ arena.targets m

def isAttackAt (arena : Arena) (n : NodeId) : Bool :=
  (arena.position? n).any (!·.isPair)

section Nodes

variable (hsize : arena.size ≤ 0x100000000)

include hsize

theorem mem_nodes_iff : n ∈ arena.nodes ↔ n.index < arena.size := by
  rw [nodes, List.mem_map]
  constructor
  · rintro ⟨i, hi, rfl⟩
    rw [List.mem_range] at hi
    rwa [NodeId.index_ofIndex i (Nat.lt_of_lt_of_le hi hsize)]
  · exact fun hn => ⟨n.index, List.mem_range.2 hn, n.ofIndex_index⟩

theorem nodup_nodes : arena.nodes.Nodup := by
  refine List.Nodup.map_on ?_ List.nodup_range
  intro i hi j hj heq
  rw [List.mem_range] at hi hj
  rw [← NodeId.index_ofIndex i (Nat.lt_of_lt_of_le hi hsize), heq,
    NodeId.index_ofIndex j (Nat.lt_of_lt_of_le hj hsize)]

theorem map_position?_nodes :
    arena.nodes.map arena.position? = arena.positions.toList.map some := by
  apply List.ext_getElem
  · simp [nodes, size]
  · intro i hi hi'
    have hbound : i < arena.positions.size := by simpa using hi'
    have hword : i < 0x100000000 := Nat.lt_of_lt_of_le hbound hsize
    simp [nodes, position?, NodeId.index_ofIndex i hword, hbound]

end Nodes

/-- Every node but the first is a target of a node before it. Nodes are given by their
places, since an arena that grows may not have all of its hyperedges yet. -/
def IsRooted (arena : Arena) : Prop :=
  ∀ i, 0 < i → i < arena.positions.size →
    ∃ j edges, j < i ∧ arena.edges[j]? = some edges ∧ .ofIndex i ∈ edges.flatten

theorem isRooted_start (left right : ProcessId) : (start left right).IsRooted := by
  intro i hi hbound
  simp only [start, List.size_toArray, List.length_singleton] at hbound
  omega

theorem IsRooted.expand? (h : arena.IsRooted)
    (hnext : arena.expand? attacks answers = some next) : next.IsRooted := by
  obtain ⟨position, nodes, hposition, hplaced, hedges⟩ := exists_of_expand?_eq_some hnext
  have hlt := (Array.getElem?_eq_some_iff.1 hposition).1
  intro i hi hbound
  rcases Nat.lt_or_ge i arena.positions.size with hold | hnew
  · obtain ⟨j, edges, hji, hj, hmem⟩ := h i hi hold
    refine ⟨j, edges, hji, ?_, hmem⟩
    have hj' := (Array.getElem?_eq_some_iff.1 hj).1
    rw [hedges, Array.getElem?_push, if_neg (Nat.ne_of_lt hj'), hj]
  · refine ⟨arena.edges.size, bundle position nodes, by omega, by simp [hedges], ?_⟩
    rw [flatten_bundle]
    exact hplaced.mem_nodes i hnew hbound

theorem IsRooted.growsInto (hrooted : arena.IsRooted)
    (h : GrowsInto attacks answers arena next) : next.IsRooted := by
  induction h with
  | refl => exact hrooted
  | tail _ hexpand ih => exact ih.expand? hexpand

theorem IsRooted.exists_leadsTo (h : arena.IsRooted) (hpos : 0 < n.index)
    (hn : n.index < arena.size) : ∃ m, m.index < n.index ∧ arena.LeadsTo m n := by
  obtain ⟨j, edges, hjn, hedges, hmem⟩ := h n.index hpos hn
  have hj : (NodeId.ofIndex j).index = j :=
    NodeId.index_ofIndex j (Nat.lt_trans hjn n.index_lt)
  refine ⟨.ofIndex j, by rwa [hj], ?_⟩
  rw [LeadsTo, targets, Arena.hyperedges, Hypergraph.hyperedges, hypergraph, hj, hedges]
  simpa using hmem

theorem IsRooted.reflTransGen_leadsTo (h : arena.IsRooted) (hn : n.index < arena.size) :
    Relation.ReflTransGen arena.LeadsTo .root n := by
  induction hi : n.index using Nat.strongRecOn generalizing n with
  | ind i ih =>
      subst hi
      rcases Nat.eq_zero_or_pos n.index with hzero | hpos
      · rw [NodeId.index_inj.1 (hzero.trans NodeId.index_root.symm)]
      · obtain ⟨m, hmn, hleads⟩ := h.exists_leadsTo hpos hn
        exact (ih m.index hmn (Nat.lt_trans hmn hn) rfl).tail hleads

namespace IsComplete

theorem mem_nodes_of_leadsTo (h : arena.IsComplete attacks answers root)
    (hleads : arena.LeadsTo m n) : m ∈ arena.nodes := by
  rw [mem_nodes_iff h.size_le]
  by_contra hm
  have hsize : arena.hypergraph.size ≤ m.index := by
    rw [Hypergraph.size, hypergraph, h.size_edges]
    exact Nat.le_of_not_lt hm
  rw [LeadsTo, Arena.targets, hyperedges, Hypergraph.hyperedges_of_size_le _ m hsize]
    at hleads
  exact absurd hleads List.not_mem_nil

theorem map_position?_flatMap_targets (h : arena.IsComplete attacks answers root) :
    (arena.nodes.flatMap arena.targets).map arena.position? =
      (arena.positions.toList.flatMap (·.successors attacks answers)).map some := by
  have hnode : ∀ n ∈ arena.nodes, (arena.targets n).map arena.position? =
      ((arena.position? n).toList.flatMap (·.successors attacks answers)).map some := by
    intro n hn
    rw [mem_nodes_iff h.size_le] at hn
    have hposition : arena.position? n = some arena.positions[n.index] :=
      Array.getElem?_eq_getElem hn
    rw [h.map_position?_targets hposition, hposition, Option.toList_some,
      List.flatMap_singleton]
  calc (arena.nodes.flatMap arena.targets).map arena.position?
      = arena.nodes.flatMap fun n =>
          ((arena.position? n).toList.flatMap (·.successors attacks answers)).map some := by
        rw [List.map_flatMap]
        exact List.flatMap_congr hnode
    _ = (arena.positions.toList.map some).flatMap fun position =>
          (position.toList.flatMap (·.successors attacks answers)).map some := by
        rw [← map_position?_nodes h.size_le, List.flatMap_map]
    _ = (arena.positions.toList.flatMap (·.successors attacks answers)).map some := by
        rw [List.flatMap_map, List.map_flatMap]
        simp

theorem countP_targets (h : arena.IsComplete attacks answers root)
    (hgrown : IsGrown attacks answers root arena) :
    (arena.nodes.flatMap arena.targets).countP arena.isAttackAt =
      arena.nodes.countP arena.isAttackAt := by
  have hcount (list : List NodeId) :
      list.countP arena.isAttackAt =
        (list.map arena.position?).countP (·.any (!·.isPair)) := by
    rw [List.countP_map]
    rfl
  have hattacks := congrArg List.length hgrown.attacks_eq
  rw [h.size_edges, List.take_of_length_le (Nat.le_of_eq (Array.length_toList)),
    ← List.filter_flatMap, ← List.countP_eq_length_filter,
    ← List.countP_eq_length_filter] at hattacks
  rw [hcount, hcount, h.map_position?_flatMap_targets, map_position?_nodes h.size_le,
    List.countP_map, List.countP_map]
  exact hattacks.symm

end IsComplete

theorem IsGrown.eq_of_isPair (hgrown : IsGrown attacks answers root arena)
    {position : Position} (hpair : position.isPair = true)
    (hm : arena.position? m = some position) (hn : arena.position? n = some position) :
    m = n := by
  have hdistinct := List.pairwise_iff_getElem.1 (List.pairwise_filter.1 hgrown.nodup_pairs)
  obtain ⟨hmlt, hmeq⟩ := Array.getElem?_eq_some_iff.1 hm
  obtain ⟨hnlt, hneq⟩ := Array.getElem?_eq_some_iff.1 hn
  rw [← NodeId.index_inj]
  rcases Nat.lt_trichotomy m.index n.index with hlt | heq | hlt
  · exact absurd (hmeq.trans hneq.symm)
      (hdistinct m.index n.index hmlt hnlt hlt (by simp [hmeq, hpair]) (by simp [hneq, hpair]))
  · exact heq
  · exact absurd (hneq.trans hmeq.symm)
      (hdistinct n.index m.index hnlt hmlt hlt (by simp [hneq, hpair]) (by simp [hmeq, hpair]))

namespace IsComplete

section Attacks

variable (h : arena.IsComplete attacks answers root)
  (hgrown : IsGrown attacks answers root arena) (hrooted : arena.IsRooted)
  (hroot : root.isPair = true)

include h hrooted hroot in
theorem exists_pair_leadsTo {position : Position} (hn : arena.position? n = some position)
    (hattack : position.isPair = false) :
    ∃ m p q, arena.position? m = some (.pair p q) ∧ arena.LeadsTo m n := by
  have hbound : n.index < arena.size := (Array.getElem?_eq_some_iff.1 hn).1
  have hpos : 0 < n.index := by
    refine Nat.pos_of_ne_zero fun hzero => ?_
    obtain rfl := NodeId.index_inj.1 (hzero.trans NodeId.index_root.symm)
    obtain rfl := Option.some.inj (h.root_eq.symm.trans hn)
    exact absurd hroot (by simp [hattack])
  obtain ⟨m, hmn, hleads⟩ := hrooted.exists_leadsTo hpos hbound
  obtain ⟨source, hm⟩ : ∃ source, arena.position? m = some source :=
    ⟨_, Array.getElem?_eq_getElem (Nat.lt_trans hmn hbound)⟩
  obtain ⟨successor, hsuccessor, hreached⟩ :=
    exists_successor (h.map_position?_targets hm) hleads
  obtain rfl := Option.some.inj (hreached.symm.trans hn)
  -- a successor of an attack would be a pair
  have hpair := Position.isPair_of_mem_successors _ _ _ _ hsuccessor
  cases source with
  | pair p q => exact ⟨m, p, q, hm, hleads⟩
  | leftAttack step right => exact absurd (hattack.symm.trans hpair) Bool.false_ne_true
  | rightAttack left step => exact absurd (hattack.symm.trans hpair) Bool.false_ne_true

include h hgrown hrooted hroot

theorem nodup_attackTargets :
    ((arena.nodes.flatMap arena.targets).filter arena.isAttackAt).Nodup := by
  have hsubset : arena.nodes.filter arena.isAttackAt ⊆
      (arena.nodes.flatMap arena.targets).filter arena.isAttackAt := by
    intro n hn
    obtain ⟨_, hattack⟩ := List.mem_filter.1 hn
    obtain ⟨position, hposition, hkind⟩ := (Option.any_eq_true _ _).1 hattack
    obtain ⟨m, p, q, _, hleads⟩ :=
      h.exists_pair_leadsTo hrooted hroot hposition (by simpa using hkind)
    have hm := h.mem_nodes_of_leadsTo hleads
    exact List.mem_filter.2 ⟨List.mem_flatMap.2 ⟨m, hm, hleads⟩, hattack⟩
  -- the attacks are among the targets and just as many, so the targets are a permutation of them
  have hnodup := (nodup_nodes h.size_le).filter arena.isAttackAt
  have hcount := h.countP_targets hgrown
  rw [List.countP_eq_length_filter, List.countP_eq_length_filter] at hcount
  have hperm := (hnodup.subperm hsubset).perm_of_length_le (Nat.le_of_eq hcount)
  exact hperm.nodup_iff.1 hnodup

theorem eq_of_leadsTo_attack (hattack : arena.isAttackAt n = true) {m' : NodeId}
    (hm : arena.LeadsTo m n) (hm' : arena.LeadsTo m' n) : m = m' := by
  have hnodup := h.nodup_attackTargets hgrown hrooted hroot
  rw [List.filter_flatMap, List.nodup_flatMap] at hnodup
  by_contra hne
  have : Std.Symm (Function.onFun List.Disjoint fun m =>
      (arena.targets m).filter arena.isAttackAt) := ⟨fun _ _ => List.Disjoint.symm⟩
  have hdisjoint := hnodup.2.forall (h.mem_nodes_of_leadsTo hm) (h.mem_nodes_of_leadsTo hm') hne
  exact hdisjoint (List.mem_filter.2 ⟨hm, hattack⟩) (List.mem_filter.2 ⟨hm', hattack⟩)

theorem nodup_targets_of_pair {p q : ProcessId}
    (hn : arena.position? n = some (.pair p q)) : (arena.targets n).Nodup := by
  have hnodup := h.nodup_attackTargets hgrown hrooted hroot
  rw [List.filter_flatMap, List.nodup_flatMap] at hnodup
  have hmem : n ∈ arena.nodes :=
    (mem_nodes_iff h.size_le).2 (Array.getElem?_eq_some_iff.1 hn).1
  have hattacks := hnodup.1 n hmem
  rwa [List.filter_eq_self.2] at hattacks
  intro target ht
  obtain ⟨successor, hsuccessor, htarget⟩ := exists_successor (h.map_position?_targets hn) ht
  rw [isAttackAt, htarget, Option.any_some,
    Position.isPair_of_mem_successors _ _ _ _ hsuccessor]
  rfl

/-- An attack is the only target of one hyperedge of a pair, and of no other hyperedge. -/
theorem exists_hyperedge_of_attack {position : Position}
    (hn : arena.position? n = some position) (hattack : position.isPair = false) :
    ∃ m i p q, arena.position? m = some (.pair p q) ∧
      (arena.hyperedges m)[i]? = some [n] ∧
      ∀ (m' : NodeId) (i' : Nat) (edge : Hyperedge),
        (arena.hyperedges m')[i']? = some edge → n ∈ edge → m' = m ∧ i' = i := by
  obtain ⟨m, p, q, hm, hleads⟩ := h.exists_pair_leadsTo hrooted hroot hn hattack
  obtain ⟨targets, hedges, _⟩ := h.targets_of_pair hm rfl
  have htargets : arena.targets m = targets := by
    rw [Arena.targets, hedges, ← List.flatMap_def, List.flatMap_singleton']
  have hnodup := h.nodup_targets_of_pair hgrown hrooted hroot hm
  have hmem : n ∈ arena.targets m := hleads
  rw [htargets] at hnodup hmem
  obtain ⟨i, hi, hget⟩ := List.getElem_of_mem hmem
  refine ⟨m, i, p, q, hm, by simp [hedges, hi, hget], fun m' i' edge hedge htarget => ?_⟩
  have hleads' : arena.LeadsTo m' n :=
    List.mem_flatten_of_mem (List.mem_of_getElem? hedge) htarget
  obtain rfl := h.eq_of_leadsTo_attack hgrown hrooted hroot (by simp [isAttackAt, hn, hattack])
    hleads' hleads
  refine ⟨rfl, ?_⟩
  rw [hedges, List.getElem?_map, Option.map_eq_some_iff] at hedge
  obtain ⟨target, htarget', rfl⟩ := hedge
  obtain rfl := List.mem_singleton.1 htarget
  obtain ⟨_, hget'⟩ := List.getElem?_eq_some_iff.1 htarget'
  exact hnodup.getElem_inj_iff.1 (hget'.trans hget.symm)

end Attacks

end IsComplete

/-- An arena that is laid out from two processes: the expansion of node after node has led to
it and ends with it, and it holds what a play can reach and nothing else. -/
structure IsLaidOut (attacks answers : ProcessId → List Transition)
    (left right : ProcessId) (arena : Arena) : Prop where
  growsInto : GrowsInto attacks answers (start left right) arena
  expand?_eq_none : arena.expand? attacks answers = none
  size_edges : arena.edges.size = arena.size
  position?_root : arena.position? .root = some (.pair left right)
  index_lt : ∀ m, ∀ edge ∈ arena.hyperedges m, ∀ n ∈ edge, n.index < arena.size
  eq_of_pair : ∀ m n p q, arena.position? m = some (.pair p q) →
    arena.position? n = some (.pair p q) → m = n
  hyperedges_pair : ∀ n p q, arena.position? n = some (.pair p q) →
    ∃ lefts rights : List NodeId,
      arena.hyperedges n = (lefts ++ rights).map ([·]) ∧ (lefts ++ rights).Nodup ∧
      lefts.map arena.position? = (attacks p).map (fun step => some (.leftAttack step q)) ∧
      rights.map arena.position? = (attacks q).map (fun step => some (.rightAttack p step))
  hyperedges_leftAttack : ∀ n step q, arena.position? n = some (.leftAttack step q) →
    ∃ targets : List NodeId, arena.hyperedges n = [targets] ∧
      targets.map arena.position? =
        ((answers q).filter (·.action = step.action)).map
          fun answer => some (.pair step.target answer.target)
  hyperedges_rightAttack : ∀ n p step, arena.position? n = some (.rightAttack p step) →
    ∃ targets : List NodeId, arena.hyperedges n = [targets] ∧
      targets.map arena.position? =
        ((answers p).filter (·.action = step.action)).map
          fun answer => some (.pair answer.target step.target)
  exists_hyperedge_of_attack : ∀ n position, arena.position? n = some position →
    position.isPair = false →
      ∃ m i p q, arena.position? m = some (.pair p q) ∧
        (arena.hyperedges m)[i]? = some [n] ∧
        ∀ (m' : NodeId) (i' : Nat) (edge : Hyperedge),
          (arena.hyperedges m')[i']? = some edge → n ∈ edge → m' = m ∧ i' = i
  reflTransGen_leadsTo : ∀ n, n.index < arena.size →
    Relation.ReflTransGen arena.LeadsTo .root n

theorem IsComplete.isLaidOut (h : arena.IsComplete attacks answers (.pair left right))
    (hgrows : GrowsInto attacks answers (start left right) arena) :
    arena.IsLaidOut attacks answers left right := by
  have hgrown := (isGrown_start left right).growsInto hgrows
  have hrooted := (isRooted_start left right).growsInto hgrows
  constructor
  · exact hgrows
  · exact expand?_eq_none_iff.2 (Nat.le_of_eq h.size_edges.symm)
  · exact h.size_edges
  · exact h.root_eq
  · intro m edge hedge n hn
    have hlt := h.isClosed.index_lt hedge hn
    rwa [Hypergraph.size, hypergraph, h.size_edges] at hlt
  · exact fun m n p q hm hn => hgrown.eq_of_isPair rfl hm hn
  · intro n p q hn
    obtain ⟨targets, hedges, htargets⟩ := h.targets_of_pair hn rfl
    have hnodup := h.nodup_targets_of_pair hgrown hrooted rfl hn
    rw [Arena.targets, hedges, ← List.flatMap_def, List.flatMap_singleton'] at hnodup
    rw [Position.successors, List.map_append, List.map_eq_append_iff] at htargets
    obtain ⟨lefts, rights, rfl, hlefts, hrights⟩ := htargets
    refine ⟨lefts, rights, hedges, hnodup, ?_, ?_⟩
    · rw [hlefts, List.map_map]
      rfl
    · rw [hrights, List.map_map]
      rfl
  · intro n step q hn
    obtain ⟨targets, hedges, htargets⟩ := h.targets_of_attack hn rfl
    refine ⟨targets, hedges, ?_⟩
    rw [htargets, Position.successors, List.map_map]
    rfl
  · intro n p step hn
    obtain ⟨targets, hedges, htargets⟩ := h.targets_of_attack hn rfl
    refine ⟨targets, hedges, ?_⟩
    rw [htargets, Position.successors, List.map_map]
    rfl
  · exact fun n position hn => h.exists_hyperedge_of_attack hgrown hrooted rfl hn
  · exact fun n => hrooted.reflTransGen_leadsTo

/-- The arena of two processes is laid out, as long as node numbers do not repeat. -/
theorem isLaidOut_ofPair (lts : TransitionSystem) (attacker defender : Semantics)
    (left right : ProcessId)
    (hsize : (ofPair lts attacker defender left right).size ≤ 0x100000000) :
    (ofPair lts attacker defender left right).IsLaidOut (lts.steps attacker)
      (lts.steps defender) left right := by
  rw [ofPair_eq] at hsize ⊢
  exact (isComplete_ofSteps lts attacker defender left right hsize).isLaidOut
    (growsInto_grow _ _ _ _)

/-- A process that has the same step to itself twice, and a step to a process that is not
declared. -/
def doubled : TransitionSystem :=
  ⟨#[⟨"X", [⟨⟨"a"⟩, .ofIndex 0⟩, ⟨⟨"a"⟩, .ofIndex 0⟩, ⟨⟨"b"⟩, .ofIndex 1⟩]⟩]⟩

theorem size_ofPair_doubled :
    (ofPair doubled .strong .weak (.ofIndex 0) (.ofIndex 0)).size = 8 := by
  rw [ofPair_eq]
  decide +kernel

theorem isLaidOut_doubled :
    (ofPair doubled .strong .weak (.ofIndex 0) (.ofIndex 0)).size ≤ 0x100000000 ∧
      (ofPair doubled .strong .weak (.ofIndex 0) (.ofIndex 0)).IsLaidOut
        (doubled.steps .strong) (doubled.steps .weak) (.ofIndex 0) (.ofIndex 0) := by
  have hsize : (ofPair doubled .strong .weak (.ofIndex 0) (.ofIndex 0)).size ≤
      0x100000000 := by
    rw [size_ofPair_doubled]
    decide
  exact ⟨hsize, isLaidOut_ofPair doubled .strong .weak (.ofIndex 0) (.ofIndex 0) hsize⟩

end Arena

end BisimPlay
