import BisimPlay.Proofs.Arena.Completeness
import BisimPlay.Proofs.Hypergraph.Attractor
import BisimPlay.Proofs.Process.Bisimulation

/-!
# Traps of an arena

A trap of an arena is a bisimulation in disguise. Given a relation, a position is safe
when it is a related pair, or an attack with an answer that leads to one. For a
bisimulation the nodes of safe positions are a trap; and the pairs in a trap are a
bisimulation.
-/

namespace BisimPlay

variable {attacks answers : ProcessId → List Transition}
  {R : ProcessId → ProcessId → Prop}

namespace Position

/-- A position from which the defender keeps to related pairs. -/
def IsSafe (answers : ProcessId → List Transition) (R : ProcessId → ProcessId → Prop) :
    Position → Prop
  | pair left right => R left right
  | leftAttack step right =>
    ∃ target, ⟨step.action, target⟩ ∈ answers right ∧ R step.target target
  | rightAttack left step =>
    ∃ target, ⟨step.action, target⟩ ∈ answers left ∧ R target step.target

theorem isSafe_iff_of_attack (attacks : ProcessId → List Transition)
    {position : Position} (h : position.isPair = false) :
    position.IsSafe answers R ↔
      ∃ left right, .pair left right ∈ position.successors attacks answers ∧
        R left right := by
  cases position with
  | pair left right => simp [isPair] at h
  | leftAttack step right =>
      simp only [IsSafe, successors, List.mem_map, mem_answersTo_iff]
      constructor
      · rintro ⟨target, hanswer, hrelated⟩
        exact ⟨_, target, ⟨_, ⟨hanswer, rfl⟩, rfl⟩, hrelated⟩
      · rintro ⟨_, _, ⟨⟨_, target⟩, ⟨hanswer, rfl⟩, heq⟩, hrelated⟩
        obtain ⟨rfl, rfl⟩ := pair.inj heq
        exact ⟨target, hanswer, hrelated⟩
  | rightAttack left step =>
      simp only [IsSafe, successors, List.mem_map, mem_answersTo_iff]
      constructor
      · rintro ⟨target, hanswer, hrelated⟩
        exact ⟨target, _, ⟨_, ⟨hanswer, rfl⟩, rfl⟩, hrelated⟩
      · rintro ⟨_, _, ⟨⟨_, target⟩, ⟨hanswer, rfl⟩, heq⟩, hrelated⟩
        obtain ⟨rfl, rfl⟩ := pair.inj heq
        exact ⟨target, hanswer, hrelated⟩

/-- A relation is a bisimulation when related pairs are followed by safe attacks. -/
theorem isBisimulation_iff :
    IsBisimulation (fun p a q => ⟨a, q⟩ ∈ attacks p) (fun p a q => ⟨a, q⟩ ∈ answers p) R ↔
      ∀ left right, R left right →
        ∀ successor ∈ (pair left right).successors attacks answers,
          successor.IsSafe answers R := by
  constructor
  · intro hR left right hrelated successor hsuccessor
    rcases List.mem_append.1 hsuccessor with hmem | hmem
    · obtain ⟨step, hstep, rfl⟩ := List.mem_map.1 hmem
      exact hR.left left right _ _ hrelated hstep
    · obtain ⟨step, hstep, rfl⟩ := List.mem_map.1 hmem
      exact hR.right right left _ _ hrelated hstep
  · intro hsafe
    constructor
    · intro left right a target hrelated hstep
      exact hsafe left right hrelated (.leftAttack ⟨a, target⟩ right)
        (List.mem_append_left _ (List.mem_map.2 ⟨_, hstep, rfl⟩))
    · intro right left a target hrelated hstep
      exact hsafe left right hrelated (.rightAttack left ⟨a, target⟩)
        (List.mem_append_right _ (List.mem_map.2 ⟨_, hstep, rfl⟩))

end Position

namespace Arena.IsComplete

variable {root : Position} {arena : Arena}

theorem isTrap_of_isBisimulation (h : arena.IsComplete attacks answers root)
    (hR : IsBisimulation (fun p a q => ⟨a, q⟩ ∈ attacks p)
      (fun p a q => ⟨a, q⟩ ∈ answers p) R) :
    arena.hypergraph.IsTrap fun n =>
      ∃ position, arena.position? n = some position ∧ position.IsSafe answers R := by
  rintro n ⟨position, hn, hsafe⟩ edge hedge
  rw [Position.isBisimulation_iff] at hR
  rw [← hyperedges] at hedge
  cases hpair : position.isPair with
  | true =>
      obtain ⟨targets, hedges, htargets⟩ := h.targets_of_pair hn hpair
      rw [hedges] at hedge
      obtain ⟨target, ht, rfl⟩ := List.mem_map.1 hedge
      obtain ⟨successor, hsuccessor, htarget⟩ := exists_successor htargets ht
      refine ⟨target, List.mem_singleton_self target, successor, htarget, ?_⟩
      cases position with
      | pair left right => exact hR left right hsafe successor hsuccessor
      | leftAttack step right => simp [Position.isPair] at hpair
      | rightAttack left step => simp [Position.isPair] at hpair
  | false =>
      obtain ⟨targets, hedges, htargets⟩ := h.targets_of_attack hn hpair
      rw [hedges] at hedge
      obtain rfl := List.mem_singleton.1 hedge
      obtain ⟨left, right, hsuccessor, hrelated⟩ :=
        (Position.isSafe_iff_of_attack attacks hpair).1 hsafe
      obtain ⟨target, ht, htarget⟩ := exists_target htargets hsuccessor
      exact ⟨target, ht, _, htarget, hrelated⟩

theorem isBisimulation_of_isTrap (h : arena.IsComplete attacks answers root)
    {inside : NodeId → Prop} (htrap : arena.hypergraph.IsTrap inside) :
    IsBisimulation (fun p a q => ⟨a, q⟩ ∈ attacks p) (fun p a q => ⟨a, q⟩ ∈ answers p)
      fun left right => ∃ n, arena.position? n = some (.pair left right) ∧ inside n := by
  rw [Position.isBisimulation_iff]
  rintro left right ⟨n, hn, hinside⟩ successor hsuccessor
  obtain ⟨attacked, hedges, hattacked⟩ := h.targets_of_pair hn rfl
  obtain ⟨attack, hmem, hattack⟩ := exists_target hattacked hsuccessor
  obtain ⟨_, hsingle, hwithin⟩ := htrap n hinside [attack]
    (by rw [← hyperedges, hedges]; exact List.mem_map.2 ⟨attack, hmem, rfl⟩)
  obtain rfl := List.mem_singleton.1 hsingle
  have hnopair : successor.isPair = false :=
    Position.isPair_of_mem_successors _ _ _ _ hsuccessor
  obtain ⟨targets, hanswered, htargets⟩ := h.targets_of_attack hattack hnopair
  obtain ⟨target, ht, htarget⟩ := htrap _ hwithin targets
    (by rw [← hyperedges, hanswered]; exact List.mem_singleton_self targets)
  obtain ⟨answer, hanswer, hposition⟩ := exists_successor htargets ht
  rw [Position.isSafe_iff_of_attack attacks hnopair]
  have hpair := Position.isPair_of_mem_successors _ _ _ _ hanswer
  rw [hnopair] at hpair
  cases answer with
  | pair p q => exact ⟨p, q, hanswer, target, hposition, htarget⟩
  | leftAttack step q => simp [Position.isPair] at hpair
  | rightAttack p step => simp [Position.isPair] at hpair

end Arena.IsComplete

end BisimPlay
