import BisimPlay.Process.System
import BisimPlay.Search

/-!
# Strong and weak steps

Under strong semantics a process takes exactly the steps of its system. Under weak
semantics silent steps are absorbed: a weak silent step is any number of silent
steps, none included, and a weak step of an observable action is that action with
any number of silent steps before and after it.

Weak steps are listed once each. The silent ones come first, in the order in which
a breadth-first search finds their targets; the observable ones follow, ordered by
the process that takes the action, by its steps, and by what is silently reached
from there.
-/

namespace BisimPlay

/-- The semantics under which a process takes its steps. -/
inductive Semantics
  | strong
  | weak
deriving DecidableEq, Inhabited

def Semantics.text : Semantics → String
  | strong => "strong"
  | weak => "weak"

namespace TransitionSystem

/-- Where one silent step leads. -/
def tauTargets (lts : TransitionSystem) (p : ProcessId) : List ProcessId :=
  ((lts.transitions p).filter (·.action.isTau)).map (·.target)

/-- The steps of a process that can be observed. -/
def observables (lts : TransitionSystem) (p : ProcessId) : List Transition :=
  (lts.transitions p).filter (!·.action.isTau)

/-- The processes that any number of silent steps may reach, breadth first. A
shortest silent path leaves each of its processes but the last once, and all of
these are declared, so no more rounds are needed than processes are declared. -/
def tauClosure (lts : TransitionSystem) (p : ProcessId) : List ProcessId :=
  Search.within lts.tauTargets lts.size p

/-- An observable step, followed by silent steps: one weak step for each process
that is silently reached from its target. -/
def prolonged (closure : ProcessId → List ProcessId) (step : Transition) :
    List Transition :=
  (closure step.target).map fun r => ⟨step.action, r⟩

/-- The weak steps of a process as they are come upon, possibly many times each,
where silent closures are given by a function. -/
def weakRuns (lts : TransitionSystem) (closure : ProcessId → List ProcessId)
    (p : ProcessId) : List Transition :=
  let before := closure p
  before.map (⟨.tau, ·⟩) ++
    (before.flatMap lts.observables).flatMap (prolonged closure)

/-- The weak steps of a process. -/
def weakSteps (lts : TransitionSystem) (p : ProcessId) : List Transition :=
  Search.fresh [] (lts.weakRuns lts.tauClosure p)

/-- The steps of a process under a semantics. -/
def steps (lts : TransitionSystem) : Semantics → ProcessId → List Transition
  | .strong, p => lts.transitions p
  | .weak, p => lts.weakSteps p

@[simp] theorem steps_strong (lts : TransitionSystem) (p : ProcessId) :
    lts.steps .strong p = lts.transitions p := rfl

@[simp] theorem steps_weak (lts : TransitionSystem) (p : ProcessId) :
    lts.steps .weak p = lts.weakSteps p := rfl

theorem mem_tauTargets (lts : TransitionSystem) (p q : ProcessId) :
    q ∈ lts.tauTargets p ↔ ⟨.tau, q⟩ ∈ lts.transitions p := by
  simp only [tauTargets, List.mem_map, List.mem_filter, Action.isTau_iff]
  constructor
  · rintro ⟨⟨action, target⟩, ⟨hmem, rfl⟩, rfl⟩
    exact hmem
  · intro h
    exact ⟨⟨.tau, q⟩, ⟨h, rfl⟩, rfl⟩

theorem mem_range_of_tauTargets_ne_nil (lts : TransitionSystem) (p : ProcessId)
    (h : lts.tauTargets p ≠ []) :
    p ∈ (List.range lts.size).map ProcessId.ofIndex := by
  by_cases hp : p.index < lts.size
  · exact List.mem_map.2 ⟨p.index, by simpa using hp, by simp⟩
  · refine absurd ?_ h
    simp [tauTargets, lts.transitions_of_size_le p (Nat.le_of_not_lt hp)]

theorem mem_tauClosure_trans (lts : TransitionSystem) {p q r : ProcessId}
    (hq : q ∈ lts.tauClosure p) (hr : r ∈ lts.tauClosure q) : r ∈ lts.tauClosure p :=
  Search.mem_within_trans lts.tauTargets _ lts.mem_range_of_tauTargets_ne_nil lts.size
    (by simp) hq hr

theorem nodup_weakSteps (lts : TransitionSystem) (p : ProcessId) :
    (lts.weakSteps p).Nodup :=
  Search.nodup_fresh _ _

end TransitionSystem

end BisimPlay
