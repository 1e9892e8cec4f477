import BisimPlay.Process.Steps
import BisimPlay.Proofs.Search.Renaming

/-!
# Renamed processes

A renaming carries processes of one system over to another so that each takes the same
steps, in the same order, to the renamed targets. It need only do so for a set of processes
that steps do not leave, such as those that two processes reach, and tell these apart; all
other processes of either system, its names and its order of declaration do not matter.

Weak steps are made of strong ones alone, so a renaming of the strong steps is a renaming
of the weak ones (`IsRenaming.steps`).
-/

namespace BisimPlay

def Transition.rename (f : ProcessId → ProcessId) (step : Transition) : Transition :=
  ⟨step.action, f step.target⟩

theorem Transition.injOn_rename {f : ProcessId → ProcessId} {s : Set ProcessId}
    (hf : Set.InjOn f s) : Set.InjOn (rename f) {step | step.target ∈ s} := by
  rintro ⟨a, p⟩ hp ⟨b, q⟩ hq heq
  obtain ⟨haction, htarget⟩ := Transition.mk.inj heq
  rw [Transition.mk.injEq]
  exact ⟨haction, hf hp hq htarget⟩

/-- On a set of processes that steps do not leave, a map tells the processes apart and
takes the steps of each to the steps of its image. -/
structure IsRenaming (f : ProcessId → ProcessId) (s : Set ProcessId)
    (steps steps' : ProcessId → List Transition) : Prop where
  injOn : Set.InjOn f s
  target_mem : ∀ p ∈ s, ∀ step ∈ steps p, step.target ∈ s
  steps_eq : ∀ p ∈ s, steps' (f p) = (steps p).map (·.rename f)

namespace TransitionSystem

/-- The processes that two processes reach, which they are themselves or come upon by
steps of the system. -/
inductive IsReached (lts : TransitionSystem) (left right : ProcessId) : ProcessId → Prop
  | left : IsReached lts left right left
  | right : IsReached lts left right right
  | step {p : ProcessId} {step : Transition} (hp : IsReached lts left right p)
    (hstep : step ∈ lts.transitions p) : IsReached lts left right step.target

end TransitionSystem

namespace IsRenaming

open TransitionSystem

variable {lts other : TransitionSystem} {f : ProcessId → ProcessId} {s : Set ProcessId}
  {p : ProcessId}

theorem tauTargets (h : IsRenaming f s lts.transitions other.transitions) (hp : p ∈ s) :
    other.tauTargets (f p) = (lts.tauTargets p).map f := by
  simp only [TransitionSystem.tauTargets, h.steps_eq p hp, List.filter_map, List.map_map]
  rfl

theorem observables (h : IsRenaming f s lts.transitions other.transitions) (hp : p ∈ s) :
    other.observables (f p) = (lts.observables p).map (·.rename f) := by
  simp only [TransitionSystem.observables, h.steps_eq p hp, List.filter_map]
  rfl

theorem mem_of_mem_tauClosure (h : IsRenaming f s lts.transitions other.transitions)
    (hp : p ∈ s) : ∀ q ∈ lts.tauClosure p, q ∈ s := by
  refine Search.forall_mem_rounds lts.tauTargets (· ∈ s) ?_ lts.size [p] [p] (by simpa)
  intro q hq r hr
  exact h.target_mem q hq _ ((lts.mem_tauTargets q r).1 hr)

/-- The silent closure of a renamed process is the renamed closure. The two systems may
have different numbers of processes, and so of rounds. -/
theorem tauClosure (h : IsRenaming f s lts.transitions other.transitions) (hp : p ∈ s) :
    other.tauClosure (f p) = (lts.tauClosure p).map f := by
  have hrounds (lts : TransitionSystem) {n : Nat} (hn : lts.size ≤ n) (p : ProcessId) :
      Search.within lts.tauTargets n p = lts.tauClosure p :=
    Search.within_eq_of_le lts.tauTargets _ lts.mem_range_of_tauTargets_ne_nil (by simp) hn p
  have hclosed : ∀ q ∈ s, ∀ r ∈ lts.tauTargets q, r ∈ s := fun q hq r hr =>
    h.target_mem q hq _ ((lts.mem_tauTargets q r).1 hr)
  rw [← hrounds other (Nat.le_max_right lts.size other.size),
    ← hrounds lts (Nat.le_max_left lts.size other.size)]
  exact Search.within_map h.injOn hclosed (fun q hq => h.tauTargets hq) _ hp

theorem prolonged (h : IsRenaming f s lts.transitions other.transitions) {step : Transition}
    (hstep : step.target ∈ s) :
    TransitionSystem.prolonged other.tauClosure (step.rename f) =
      (TransitionSystem.prolonged lts.tauClosure step).map (·.rename f) := by
  simp only [TransitionSystem.prolonged, Transition.rename, h.tauClosure hstep, List.map_map]
  rfl

theorem target_mem_of_mem_observables
    (h : IsRenaming f s lts.transitions other.transitions) (hp : p ∈ s) :
    ∀ step ∈ (lts.tauClosure p).flatMap lts.observables, step.target ∈ s := by
  intro step hstep
  obtain ⟨q, hq, hstep⟩ := List.mem_flatMap.1 hstep
  exact h.target_mem q (h.mem_of_mem_tauClosure hp q hq) step (List.mem_filter.1 hstep).1

theorem target_mem_of_mem_weakRuns (h : IsRenaming f s lts.transitions other.transitions)
    (hp : p ∈ s) : ∀ step ∈ lts.weakRuns lts.tauClosure p, step.target ∈ s := by
  intro step hstep
  rcases List.mem_append.1 hstep with hstep | hstep
  · obtain ⟨q, hq, rfl⟩ := List.mem_map.1 hstep
    exact h.mem_of_mem_tauClosure hp q hq
  · obtain ⟨first, hfirst, hstep⟩ := List.mem_flatMap.1 hstep
    obtain ⟨q, hq, rfl⟩ := List.mem_map.1 hstep
    exact h.mem_of_mem_tauClosure (h.target_mem_of_mem_observables hp first hfirst) q hq

theorem weakRuns (h : IsRenaming f s lts.transitions other.transitions) (hp : p ∈ s) :
    other.weakRuns other.tauClosure (f p) =
      (lts.weakRuns lts.tauClosure p).map (·.rename f) := by
  have hobservables : ((lts.tauClosure p).map f).flatMap other.observables =
      ((lts.tauClosure p).flatMap lts.observables).map (·.rename f) :=
    Search.flatMap_map_eq fun q hq => h.observables (h.mem_of_mem_tauClosure hp q hq)
  simp only [TransitionSystem.weakRuns, h.tauClosure hp, List.map_append, List.map_map,
    hobservables]
  rw [Search.flatMap_map_eq fun step hstep =>
    h.prolonged (h.target_mem_of_mem_observables hp step hstep)]
  rfl

theorem weakSteps (h : IsRenaming f s lts.transitions other.transitions) (hp : p ∈ s) :
    other.weakSteps (f p) = (lts.weakSteps p).map (·.rename f) := by
  rw [TransitionSystem.weakSteps, h.weakRuns hp]
  exact Search.fresh_map (Transition.injOn_rename h.injOn) (List.forall_mem_nil _)
    (h.target_mem_of_mem_weakRuns hp)

theorem steps (h : IsRenaming f s lts.transitions other.transitions)
    (semantics : Semantics) :
    IsRenaming f s (lts.steps semantics) (other.steps semantics) := by
  cases semantics with
  | strong => exact h
  | weak =>
      refine ⟨h.injOn, fun p hp step hstep => ?_, fun p hp => h.weakSteps hp⟩
      exact h.target_mem_of_mem_weakRuns hp step ((Search.mem_fresh _ _ _).1 hstep).1

end IsRenaming

end BisimPlay
