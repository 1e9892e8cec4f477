import BisimPlay.Arena.Moves
import BisimPlay.Proofs.Arena.Capacity

/-!
# Finished arenas

In a finished arena the hyperedges of a node are made of targets that stand for the
successors of its position, one for one and in order. `IsComplete` says so by node
numbers, which name different nodes as long as there are no more nodes than words.

What a role can do at a node is read off from this: the attacker's moves enter the
single targets of the hyperedges of a pair, and the defender's moves enter the targets
of the one hyperedge of an attack.
-/

namespace BisimPlay

namespace Arena

def targets (arena : Arena) (n : NodeId) : List NodeId := (arena.hyperedges n).flatten

/-- The root is where it should be, and the targets of every node stand for the
successors of its position. -/
structure IsComplete (attacks answers : ProcessId → List Transition) (root : Position)
    (arena : Arena) : Prop where
  root_eq : arena.position? .root = some root
  size_edges : arena.edges.size = arena.positions.size
  size_le : arena.size ≤ 0x100000000
  targets : ∀ n position, arena.position? n = some position →
    ∃ targets : List NodeId, arena.hyperedges n = bundle position targets ∧
      targets.map arena.position? = (position.successors attacks answers).map some

variable {attacks answers : ProcessId → List Transition} {root : Position}
  {arena : Arena} {n : NodeId} {position : Position}

theorem IsGrown.isComplete (hgrown : IsGrown attacks answers root arena)
    (hfinished : arena.edges.size = arena.positions.size) (hsize : arena.size ≤ 0x100000000) :
    arena.IsComplete attacks answers root := by
  refine ⟨hgrown.root_eq, hfinished, hsize, fun n position hn => ?_⟩
  have hlt := (Array.getElem?_eq_some_iff.1 hn).1
  rw [← hfinished] at hlt
  have hedges := Array.getElem?_eq_getElem hlt
  obtain ⟨places, heq, hplaces⟩ := hgrown.edges_eq n.index position _ hn hedges
  refine ⟨places.map .ofIndex, ?_, ?_⟩
  · rw [← heq]
    simp [hyperedges, Hypergraph.hyperedges, hypergraph, hlt]
  · rw [← hplaces, List.map_map]
    apply List.map_congr_left
    intro place hplace
    have hmem := List.mem_map_of_mem (f := (arena.positions[·]?)) hplace
    rw [hplaces, List.mem_map] at hmem
    obtain ⟨successor, _, hsuccessor⟩ := hmem
    have hbound := (Array.getElem?_eq_some_iff.1 hsuccessor.symm).1
    have hword : place < 0x100000000 := Nat.lt_of_lt_of_le hbound hsize
    simp [position?, NodeId.index_ofIndex place hword]

/-- The arena of two processes is complete, as long as node numbers do not repeat. -/
theorem isComplete_ofSteps (lts : TransitionSystem) (attacker defender : Semantics)
    (left right : ProcessId)
    (hsize : (ofSteps lts attacker defender left right).size ≤ 0x100000000) :
    (ofSteps lts attacker defender left right).IsComplete (lts.steps attacker)
      (lts.steps defender) (.pair left right) :=
  (isGrown_ofSteps lts attacker defender left right).isComplete
    (size_edges_ofSteps lts attacker defender left right) hsize

theorem exists_attack?_eq_some (hn : arena.position? n = some position)
    (hattack : position.isPair = false) :
    ∃ move, arena.attack? n = some move ∧ move.next = n := by
  cases position with
  | pair left right => simp [Position.isPair] at hattack
  | leftAttack step right => simp [attack?, hn]
  | rightAttack left step => simp [attack?, hn]

theorem exists_answer?_eq_some (hn : arena.position? n = some position)
    (hpair : position.isPair = true) (action : Action) (side : Side) :
    ∃ move, arena.answer? action side n = some move ∧ move.next = n := by
  cases position with
  | pair left right =>
      cases side with
      | left => simp [answer?, hn]
      | right => simp [answer?, hn]
  | leftAttack step right => simp [Position.isPair] at hpair
  | rightAttack left step => simp [Position.isPair] at hpair

theorem map_next_filterMap {enter? : NodeId → Option Move} (targets : List NodeId)
    (h : ∀ target ∈ targets, ∃ move, enter? target = some move ∧ move.next = target) :
    (targets.filterMap enter?).map (·.next) = targets := by
  induction targets with
  | nil => rfl
  | cons target rest ih =>
      obtain ⟨move, hmove, hnext⟩ := h target List.mem_cons_self
      rw [List.filterMap_cons_some hmove, List.map_cons, hnext,
        ih fun other hother => h other (List.mem_cons_of_mem _ hother)]

namespace IsComplete

/-- The targets of a pair make a hyperedge each, and they stand for its successors. -/
theorem targets_of_pair (h : arena.IsComplete attacks answers root)
    (hn : arena.position? n = some position) (hpair : position.isPair = true) :
    ∃ targets : List NodeId, arena.hyperedges n = targets.map ([·]) ∧
      targets.map arena.position? = (position.successors attacks answers).map some := by
  obtain ⟨targets, hedges, htargets⟩ := h.targets n position hn
  exact ⟨targets, by rw [hedges, bundle, if_pos hpair], htargets⟩

theorem targets_of_attack (h : arena.IsComplete attacks answers root)
    (hn : arena.position? n = some position) (hattack : position.isPair = false) :
    ∃ targets : List NodeId, arena.hyperedges n = [targets] ∧
      targets.map arena.position? = (position.successors attacks answers).map some := by
  obtain ⟨targets, hedges, htargets⟩ := h.targets n position hn
  refine ⟨targets, ?_, htargets⟩
  rw [hedges, bundle, if_neg (by simp [hattack])]

theorem exists_successor {targets : List NodeId} {successors : List Position}
    (htargets : targets.map arena.position? = successors.map some) {target : NodeId}
    (ht : target ∈ targets) :
    ∃ successor ∈ successors, arena.position? target = some successor := by
  have hmem := List.mem_map_of_mem (f := arena.position?) ht
  rw [htargets, List.mem_map] at hmem
  obtain ⟨successor, hsuccessor, heq⟩ := hmem
  exact ⟨successor, hsuccessor, heq.symm⟩

theorem exists_target {targets : List NodeId} {successors : List Position}
    (htargets : targets.map arena.position? = successors.map some)
    {successor : Position} (hsuccessor : successor ∈ successors) :
    ∃ target ∈ targets, arena.position? target = some successor := by
  have hmem := List.mem_map_of_mem (f := some) hsuccessor
  rwa [← htargets, List.mem_map] at hmem

theorem map_position?_targets (h : arena.IsComplete attacks answers root)
    (hn : arena.position? n = some position) :
    (arena.targets n).map arena.position? =
      (position.successors attacks answers).map some := by
  obtain ⟨targets, hedges, htargets⟩ := h.targets n position hn
  rw [Arena.targets, hedges, flatten_bundle, htargets]

theorem isClosed (h : arena.IsComplete attacks answers root) :
    arena.hypergraph.IsClosed := by
  intro edges hedges edge hedge target ht
  obtain ⟨i, hi, rfl⟩ := Array.getElem_of_mem hedges
  have hplace : i < arena.positions.size := by
    rw [← h.size_edges]
    exact hi
  have hindex := NodeId.index_ofIndex i (Nat.lt_of_lt_of_le hplace h.size_le)
  have hn : arena.position? (.ofIndex i) = some arena.positions[i] := by
    rw [position?, hindex, Array.getElem?_eq_getElem hplace]
  have hmem : target ∈ arena.targets (.ofIndex i) := by
    rw [Arena.targets, hyperedges, Hypergraph.hyperedges, hindex, Array.getElem?_eq_getElem hi,
      Option.getD_some]
    exact List.mem_flatten_of_mem hedge ht
  obtain ⟨successor, _, hsuccessor⟩ := exists_successor (h.map_position?_targets hn) hmem
  have hbound := (Array.getElem?_eq_some_iff.1 hsuccessor).1
  rwa [← h.size_edges] at hbound

theorem hyperedges_of_pair (h : arena.IsComplete attacks answers root)
    {left right : ProcessId} (hn : arena.position? n = some (.pair left right)) :
    arena.hyperedges n = (arena.moves n .attacker).map fun move => [move.next] := by
  obtain ⟨targets, hedges, htargets⟩ := h.targets_of_pair hn rfl
  have hmoves : (arena.moves n .attacker).map (·.next) = targets := by
    simp only [moves, attackerMoves, hn, hedges, ← List.flatMap_def, List.flatMap_singleton']
    refine map_next_filterMap targets fun target ht => ?_
    obtain ⟨successor, hsuccessor, htarget⟩ := exists_successor htargets ht
    exact exists_attack?_eq_some htarget
      (Position.isPair_of_mem_successors _ _ _ _ hsuccessor)
  rw [hedges, ← hmoves, List.map_map]
  rfl

theorem hyperedges_of_attack (h : arena.IsComplete attacks answers root)
    (hn : arena.position? n = some position) (hattack : position.isPair = false) :
    arena.hyperedges n = [(arena.moves n .defender).map (·.next)] := by
  obtain ⟨targets, hedges, htargets⟩ := h.targets_of_attack hn hattack
  have hnext (action : Action) (side : Side) :
      (targets.filterMap (arena.answer? action side)).map (·.next) = targets := by
    refine map_next_filterMap targets fun target ht => ?_
    obtain ⟨successor, hsuccessor, htarget⟩ := exists_successor htargets ht
    have hpair := Position.isPair_of_mem_successors _ _ _ _ hsuccessor
    rw [hattack] at hpair
    exact exists_answer?_eq_some htarget hpair action side
  rw [hedges]
  cases position with
  | pair left right => simp [Position.isPair] at hattack
  | leftAttack step right => simp [moves, defenderMoves, hn, hedges, hnext]
  | rightAttack left step => simp [moves, defenderMoves, hn, hedges, hnext]

end IsComplete

end Arena

end BisimPlay
