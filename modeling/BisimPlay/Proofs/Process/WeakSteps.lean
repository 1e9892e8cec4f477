import BisimPlay.Process.Steps
import Mathlib.Logic.Relation

/-!
# Silent paths and weak steps

A silent path takes any number of silent steps, and none is enough. `WeakStep` is the
weak step relation in its usual reading: a silent path for the silent action, and one
step between two silent paths for any other. The lists of silent closures and of weak
steps hold exactly what these relations say, by `mem_tauClosure_iff` and
`mem_weakSteps_iff`.
-/

namespace BisimPlay

namespace TransitionSystem

variable {lts : TransitionSystem} {p q r : ProcessId} {a : Action}

def SilentPath (lts : TransitionSystem) : ProcessId → ProcessId → Prop :=
  Relation.ReflTransGen fun p q => ⟨.tau, q⟩ ∈ lts.transitions p

/-- A weak step: a silent path for the silent action, and a step between two silent
paths for an observable one. -/
inductive WeakStep (lts : TransitionSystem) (p : ProcessId) : Action → ProcessId → Prop
  | silent {q : ProcessId} (h : lts.SilentPath p q) : WeakStep lts p .tau q
  | observable {a : Action} {p' q' q : ProcessId} (ha : a ≠ .tau)
      (hbefore : lts.SilentPath p p') (hstep : ⟨a, q'⟩ ∈ lts.transitions p')
      (hafter : lts.SilentPath q' q) : WeakStep lts p a q

@[refl] theorem SilentPath.refl (lts : TransitionSystem) (p : ProcessId) :
    lts.SilentPath p p := Relation.ReflTransGen.refl

@[trans] theorem SilentPath.trans (hpq : lts.SilentPath p q)
    (hqr : lts.SilentPath q r) : lts.SilentPath p r :=
  Relation.ReflTransGen.trans hpq hqr

theorem WeakStep.of_mem_transitions (h : ⟨a, q⟩ ∈ lts.transitions p) :
    lts.WeakStep p a q := by
  by_cases ha : a = .tau
  · subst ha
    exact .silent (Relation.ReflTransGen.single h)
  · exact .observable ha (.refl lts p) h (.refl lts q)

theorem WeakStep.after (hpq : lts.SilentPath p q) (h : lts.WeakStep q a r) :
    lts.WeakStep p a r := by
  cases h with
  | silent h => exact .silent (hpq.trans h)
  | observable ha hbefore hstep hafter =>
      exact .observable ha (hpq.trans hbefore) hstep hafter

theorem WeakStep.before (h : lts.WeakStep p a q) (hqr : lts.SilentPath q r) :
    lts.WeakStep p a r := by
  cases h with
  | silent h => exact .silent (h.trans hqr)
  | observable ha hbefore hstep hafter =>
      exact .observable ha hbefore hstep (hafter.trans hqr)

theorem weakStep_tau_iff : lts.WeakStep p .tau q ↔ lts.SilentPath p q := by
  constructor
  · intro h
    cases h with
    | silent h => exact h
    | observable ha _ _ _ => exact absurd rfl ha
  · exact .silent

theorem mem_tauClosure_iff (lts : TransitionSystem) (p q : ProcessId) :
    q ∈ lts.tauClosure p ↔ lts.SilentPath p q := by
  constructor
  · refine Search.forall_mem_rounds lts.tauTargets (lts.SilentPath p) ?_ lts.size [p] [p]
      (by simp [SilentPath.refl]) q
    intro r hr s hs
    rw [mem_tauTargets] at hs
    exact Relation.ReflTransGen.tail hr hs
  · intro h
    induction h with
    | refl => exact Search.mem_within_self lts.tauTargets lts.size p
    | tail _ hstep ih =>
        rw [← mem_tauTargets] at hstep
        exact Search.mem_within_of_mem_neighbours lts.tauTargets _
          lts.mem_range_of_tauTargets_ne_nil lts.size (by simp) ih hstep

theorem mem_observables_iff (lts : TransitionSystem) (p q : ProcessId) (a : Action) :
    ⟨a, q⟩ ∈ lts.observables p ↔ ⟨a, q⟩ ∈ lts.transitions p ∧ a ≠ .tau := by
  simp [observables, Action.isTau]

theorem mem_weakSteps_iff (lts : TransitionSystem) (p q : ProcessId) (a : Action) :
    ⟨a, q⟩ ∈ lts.weakSteps p ↔ lts.WeakStep p a q := by
  rw [weakSteps, Search.mem_fresh]
  simp only [weakRuns, prolonged, List.mem_append, List.mem_map, List.mem_flatMap,
    Transition.mk.injEq, List.not_mem_nil, not_false_eq_true, and_true, mem_tauClosure_iff]
  constructor
  · rintro (⟨r, hr, rfl, rfl⟩ | ⟨⟨b, q'⟩, ⟨p', hbefore, hstep⟩, r, hafter, rfl, rfl⟩)
    · exact .silent hr
    · rw [mem_observables_iff] at hstep
      exact .observable hstep.2 hbefore hstep.1 hafter
  · intro h
    cases h with
    | silent h => exact .inl ⟨q, h, rfl, rfl⟩
    | observable ha hbefore hstep hafter =>
        refine .inr ⟨⟨a, _⟩, ⟨_, hbefore, ?_⟩, q, hafter, rfl, rfl⟩
        exact (lts.mem_observables_iff _ _ _).2 ⟨hstep, ha⟩

end TransitionSystem

end BisimPlay
