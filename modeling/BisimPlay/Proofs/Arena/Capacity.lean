import BisimPlay.Proofs.Arena.Growth
import BisimPlay.Proofs.Process.WeakSteps
import Mathlib.Data.Set.Defs

/-!
# How large an arena can be

A play stays among the two processes that it starts with and the targets of all steps,
`within lts left right`. A process among them takes so many steps at most, strong or
weak, and every pair of them is placed once, so the nodes of an arena are counted
(`size_grow_le`) and its growth is not cut short (`size_edges_ofSteps`).
-/

namespace BisimPlay

namespace TransitionSystem

variable {lts : TransitionSystem} {left right p q : ProcessId} {a : Action}

/-- Two processes and the targets of all steps. -/
def within (lts : TransitionSystem) (left right : ProcessId) : List ProcessId :=
  left :: right :: lts.allTransitions.map (·.target)

def actions (lts : TransitionSystem) : List Action :=
  .tau :: lts.allTransitions.map (·.action)

@[simp] theorem length_within (lts : TransitionSystem) (left right : ProcessId) :
    (lts.within left right).length = lts.stepCount + 2 := by
  simp [within, stepCount]

@[simp] theorem length_actions (lts : TransitionSystem) :
    lts.actions.length = lts.stepCount + 1 := by
  simp [actions, stepCount]

theorem transitions_sublist (lts : TransitionSystem) (p : ProcessId) :
    (lts.transitions p).Sublist lts.allTransitions := by
  unfold transitions
  split
  · next declaration h =>
      rw [declaration?, ← Array.getElem?_toList] at h
      exact List.sublist_flatten_of_mem (List.mem_map_of_mem (List.mem_of_getElem? h))
  · exact List.nil_sublist _

theorem mem_within_of_mem_transitions (left right : ProcessId)
    (h : ⟨a, q⟩ ∈ lts.transitions p) : q ∈ lts.within left right := by
  have hmem := List.mem_map_of_mem (f := (·.target)) ((lts.transitions_sublist p).subset h)
  exact List.mem_cons_of_mem _ (List.mem_cons_of_mem _ hmem)

theorem mem_actions_of_mem_transitions (h : ⟨a, q⟩ ∈ lts.transitions p) :
    a ∈ lts.actions := by
  have hmem := List.mem_map_of_mem (f := (·.action)) ((lts.transitions_sublist p).subset h)
  exact List.mem_cons_of_mem _ hmem

theorem SilentPath.mem_within (hp : p ∈ lts.within left right)
    (h : lts.SilentPath p q) : q ∈ lts.within left right := by
  induction h with
  | refl => exact hp
  | tail _ hstep _ => exact mem_within_of_mem_transitions left right hstep

theorem WeakStep.mem_within (hp : p ∈ lts.within left right)
    (h : lts.WeakStep p a q) : a ∈ lts.actions ∧ q ∈ lts.within left right := by
  cases h with
  | silent hpath => exact ⟨List.mem_cons_self, hpath.mem_within hp⟩
  | observable _ _ hstep hafter =>
      exact ⟨mem_actions_of_mem_transitions hstep,
        hafter.mem_within (mem_within_of_mem_transitions left right hstep)⟩

theorem mem_within_of_mem_steps (semantics : Semantics) (hp : p ∈ lts.within left right)
    {step : Transition} (h : step ∈ lts.steps semantics p) :
    step.target ∈ lts.within left right := by
  cases semantics with
  | strong => exact mem_within_of_mem_transitions left right h
  | weak => exact (((lts.mem_weakSteps_iff p _ _).1 h).mem_within hp).2

/-- A process takes at most one weak step for each action and target, and at most as
many strong steps as there are. -/
theorem length_steps_le (semantics : Semantics) (hp : p ∈ lts.within left right) :
    (lts.steps semantics p).length ≤ (lts.stepCount + 1) * (lts.stepCount + 2) := by
  cases semantics with
  | strong =>
      have hle := (lts.transitions_sublist p).length_le
      rw [← stepCount] at hle
      calc (lts.steps .strong p).length ≤ lts.stepCount + 1 := Nat.le_succ_of_le hle
        _ ≤ (lts.stepCount + 1) * (lts.stepCount + 2) :=
          Nat.le_mul_of_pos_right _ (Nat.succ_pos _)
  | weak =>
      have hsubset : lts.weakSteps p ⊆
          lts.actions.flatMap fun a => (lts.within left right).map (Transition.mk a ·) := by
        rintro ⟨a, q⟩ h
        obtain ⟨ha, hq⟩ := ((lts.mem_weakSteps_iff p _ _).1 h).mem_within hp
        exact List.mem_flatMap.2 ⟨a, ha, List.mem_map.2 ⟨q, hq, rfl⟩⟩
      have hle := (lts.nodup_weakSteps p).length_le_of_subset hsubset
      simpa [List.length_flatMap] using hle

end TransitionSystem

namespace Position

def IsAmong (s : Set ProcessId) (position : Position) : Prop :=
  position.processes.1 ∈ s ∧ position.processes.2 ∈ s

def LiesIn (processes : List ProcessId) (position : Position) : Prop :=
  position.processes.1 ∈ processes ∧ position.processes.2 ∈ processes

theorem mem_answersTo_iff {action : Action} {steps : List Transition} {step : Transition} :
    step ∈ answersTo action steps ↔ step ∈ steps ∧ step.action = action := by
  simp [answersTo]

theorem IsAmong.successors {attacks answers : ProcessId → List Transition}
    {s : Set ProcessId} (hattacks : ∀ p ∈ s, ∀ step ∈ attacks p, step.target ∈ s)
    (hanswers : ∀ p ∈ s, ∀ step ∈ answers p, step.target ∈ s)
    {position successor : Position} (h : position.IsAmong s)
    (hsuccessor : successor ∈ position.successors attacks answers) :
    successor.IsAmong s := by
  cases position with
  | pair left right =>
      rcases List.mem_append.1 hsuccessor with hmem | hmem
      · obtain ⟨step, hstep, rfl⟩ := List.mem_map.1 hmem
        exact ⟨hattacks left h.1 step hstep, h.2⟩
      · obtain ⟨step, hstep, rfl⟩ := List.mem_map.1 hmem
        exact ⟨h.1, hattacks right h.2 step hstep⟩
  | leftAttack step right =>
      obtain ⟨answer, hanswer, rfl⟩ := List.mem_map.1 hsuccessor
      exact ⟨h.1, hanswers right h.2 answer (mem_answersTo_iff.1 hanswer).1⟩
  | rightAttack left step =>
      obtain ⟨answer, hanswer, rfl⟩ := List.mem_map.1 hsuccessor
      exact ⟨hanswers left h.1 answer (mem_answersTo_iff.1 hanswer).1, h.2⟩

theorem LiesIn.successors {attacks answers : ProcessId → List Transition}
    {processes : List ProcessId}
    (hattacks : ∀ p ∈ processes, ∀ step ∈ attacks p, step.target ∈ processes)
    (hanswers : ∀ p ∈ processes, ∀ step ∈ answers p, step.target ∈ processes)
    {position successor : Position} (h : position.LiesIn processes)
    (hsuccessor : successor ∈ position.successors attacks answers) :
    successor.LiesIn processes :=
  IsAmong.successors (s := {p | p ∈ processes}) hattacks hanswers h hsuccessor

theorem length_attacks_le {attacks answers : ProcessId → List Transition}
    {processes : List ProcessId} {bound : Nat}
    (hbound : ∀ p ∈ processes, (attacks p).length ≤ bound) {position : Position}
    (h : position.LiesIn processes) :
    ((position.successors attacks answers).filter (!·.isPair)).length ≤
      if position.isPair then 2 * bound else 0 := by
  cases position with
  | pair left right =>
      have hleft := hbound left h.1
      have hright := hbound right h.2
      refine Nat.le_trans (List.length_filter_le _ _) ?_
      simp only [Position.successors, List.length_append, List.length_map, isPair, if_true]
      omega
  | leftAttack step right => simp [Position.successors, isPair]
  | rightAttack left step => simp [Position.successors, isPair]

end Position

namespace Arena

variable {attacks answers : ProcessId → List Transition} {root : Position}
  {arena : Arena} {processes : List ProcessId}

theorem length_pairs_le (hnodup : (arena.positions.toList.filter (·.isPair)).Nodup)
    (hinside : ∀ position ∈ arena.positions.toList, position.LiesIn processes) :
    (arena.positions.toList.filter (·.isPair)).length ≤
      processes.length * processes.length := by
  have hsubset : arena.positions.toList.filter (·.isPair) ⊆
      processes.flatMap fun p => processes.map (Position.pair p ·) := by
    intro position h
    obtain ⟨hmem, hpair⟩ := List.mem_filter.1 h
    cases position with
    | pair left right =>
        obtain ⟨hleft, hright⟩ := hinside _ hmem
        exact List.mem_flatMap.2 ⟨left, hleft, List.mem_map.2 ⟨right, hright, rfl⟩⟩
    | leftAttack step right => simp [Position.isPair] at hpair
    | rightAttack left step => simp [Position.isPair] at hpair
  have hle := hnodup.length_le_of_subset hsubset
  simpa [List.length_flatMap] using hle

theorem length_flatMap_attacks_le (bound : Nat) (list : List Position)
    (hbound : ∀ position ∈ list,
      ((position.successors attacks answers).filter (!·.isPair)).length ≤
        if position.isPair then bound else 0) :
    (list.flatMap fun position =>
        (position.successors attacks answers).filter (!·.isPair)).length ≤
      (list.filter (·.isPair)).length * bound := by
  induction list with
  | nil => simp
  | cons position rest ih =>
      have hrest := ih fun other h => hbound other (List.mem_cons_of_mem _ h)
      have hfirst := hbound position List.mem_cons_self
      rw [List.flatMap_cons, List.length_append, List.filter_cons]
      split at hfirst
      · next hpair =>
          rw [if_pos hpair, List.length_cons, Nat.add_mul, Nat.one_mul]
          omega
      · next hpair =>
          rw [if_neg hpair]
          omega

/-- The nodes of an arena, counted: a node for each pair of processes, and for each
pair its attacks from either side. -/
theorem IsGrown.size_positions_le (hgrown : IsGrown attacks answers root arena)
    (hinside : ∀ position ∈ arena.positions.toList, position.LiesIn processes)
    {bound : Nat} (hbound : ∀ p ∈ processes, (attacks p).length ≤ bound) :
    arena.positions.size ≤ processes.length * processes.length * (1 + 2 * bound) := by
  have hpairs := length_pairs_le hgrown.nodup_pairs hinside
  have hexpanded : ((arena.positions.toList.take arena.edges.size).filter
      (·.isPair)).length ≤ (arena.positions.toList.filter (·.isPair)).length :=
    ((List.take_sublist _ _).filter _).length_le
  have hattacks : ((arena.positions.toList.take arena.edges.size).flatMap fun position =>
      (position.successors attacks answers).filter (!·.isPair)).length ≤
        ((arena.positions.toList.take arena.edges.size).filter (·.isPair)).length *
          (2 * bound) :=
    length_flatMap_attacks_le _ _ fun position h => Position.length_attacks_le hbound
      (hinside position (List.mem_of_mem_take h))
  rw [← hgrown.attacks_eq] at hattacks
  calc arena.positions.size
      = (arena.positions.toList.filter (·.isPair)).length +
          (arena.positions.toList.filter (!·.isPair)).length := by
        rw [← Array.length_toList]
        exact List.length_eq_length_filter_add _
    _ ≤ processes.length * processes.length +
          processes.length * processes.length * (2 * bound) :=
        Nat.add_le_add hpairs (Nat.le_trans hattacks
          (Nat.mul_le_mul_right _ (Nat.le_trans hexpanded hpairs)))
    _ = processes.length * processes.length * (1 + 2 * bound) := by
        rw [Nat.mul_add, Nat.mul_one]

variable (lts : TransitionSystem) (attacker defender : Semantics)
  (left right : ProcessId)

/-- However far an arena of a system has grown, its capacity bounds its nodes. -/
theorem size_grow_le (n : Nat) :
    (grow (lts.steps attacker) (lts.steps defender) n (start left right)).positions.size ≤
      capacity lts.stepCount := by
  have hstart : ∀ position ∈ (start left right).positions.toList,
      position.LiesIn (lts.within left right) := by
    simp [start, Position.LiesIn, Position.processes, TransitionSystem.within]
  have hinside := forall_mem_grow (lts.steps attacker) (lts.steps defender) _
    (fun position h successor hsuccessor => h.successors
      (fun p hp step => lts.mem_within_of_mem_steps attacker hp)
      (fun p hp step => lts.mem_within_of_mem_steps defender hp) hsuccessor) n hstart
  have hle := (isGrown_start left right |>.grow n).size_positions_le hinside
    fun p hp => TransitionSystem.length_steps_le attacker hp
  rwa [TransitionSystem.length_within] at hle

theorem size_ofSteps_le :
    (ofSteps lts attacker defender left right).size ≤ capacity lts.stepCount :=
  size_grow_le lts attacker defender left right _

theorem isGrown_ofSteps :
    IsGrown (lts.steps attacker) (lts.steps defender) (.pair left right)
      (ofSteps lts attacker defender left right) :=
  (isGrown_start left right).grow _

theorem size_edges_ofSteps :
    (ofSteps lts attacker defender left right).edges.size =
      (ofSteps lts attacker defender left right).positions.size :=
  size_edges_grow (isGrown_start left right)
    fun m => size_grow_le lts attacker defender left right m

end Arena

end BisimPlay
