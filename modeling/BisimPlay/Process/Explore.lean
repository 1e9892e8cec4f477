import BisimPlay.Process.Closures

/-!
# Exploring a process

What can be reached from a process is listed breadth first, each process with its
steps. The limit counts processes along a path, the start included: a limit of one
lists the start alone, and a limit of zero is no stricter than that.
-/

namespace BisimPlay

/-- A process that was reached, with its steps. -/
structure Reached where
  process : ProcessId
  steps : List Transition
deriving DecidableEq, Inhabited

namespace TransitionSystem

/-- The processes that are reached within a limit, breadth first, each with its
steps. -/
def explore (lts : TransitionSystem) (semantics : Semantics) (start : ProcessId)
    (limit : Nat) : List Reached :=
  let steps := lts.deferredSteps semantics
  let targets p := (steps.value p).map (·.target)
  (Search.withinIndexed targets (limit - 1) start).toList.map fun p =>
    ⟨p, steps.value p⟩

theorem explore_eq (lts : TransitionSystem) (semantics : Semantics)
    (start : ProcessId) (limit : Nat) :
    lts.explore semantics start limit =
      (Search.within (fun p => (lts.steps semantics p).map (·.target))
        (limit - 1) start).map fun p => ⟨p, lts.steps semantics p⟩ := by
  simp [explore, Search.toList_withinIndexed]

end TransitionSystem

end BisimPlay
