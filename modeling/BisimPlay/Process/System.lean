import BisimPlay.Fault
import BisimPlay.Process.Basic

/-!
# Transition systems

A labelled transition system with named processes. Processes stand in the order in
which they were declared, and a process is its position in that order; each keeps
its steps in the order in which they were added.

A step may lead to a process that is not declared. Such a process has no steps, and
its number stands in for the name it lacks.
-/

namespace BisimPlay

/-- A declared process: its name and its steps. -/
structure Declaration where
  name : String
  transitions : List Transition
deriving DecidableEq, Inhabited

/-- A labelled transition system: its processes in order of declaration. -/
structure TransitionSystem where
  declarations : Array Declaration
deriving DecidableEq, Inhabited

namespace TransitionSystem

def size (lts : TransitionSystem) : Nat := lts.declarations.size

/-- The names of the processes in order of declaration. -/
def names (lts : TransitionSystem) : List String :=
  lts.declarations.toList.map (·.name)

/-- The declaration of a process, if it has one. -/
def declaration? (lts : TransitionSystem) (p : ProcessId) : Option Declaration :=
  lts.declarations[p.index]?

/-- The process of a name: the first one declared under it. -/
def process? (lts : TransitionSystem) (name : String) : Option ProcessId :=
  (lts.declarations.findIdx? (·.name = name)).map ProcessId.ofIndex

/-- The process of a name, or the fault that there is none. -/
def resolve (lts : TransitionSystem) (name : String) : Except Fault ProcessId :=
  match lts.process? name with
  | some p => .ok p
  | none => .error (.unknownProcess name)

/-- The name of a declared process. -/
def name? (lts : TransitionSystem) (p : ProcessId) : Option String :=
  (lts.declaration? p).map (·.name)

/-- A process is shown by its name, or by its number when it has none. -/
def label (lts : TransitionSystem) (p : ProcessId) : String :=
  (lts.name? p).getD p.text

/-- The steps of a process, none for a process that is not declared. -/
def transitions (lts : TransitionSystem) (p : ProcessId) : List Transition :=
  match lts.declaration? p with
  | some declaration => declaration.transitions
  | none => []

/-- The steps of all processes. -/
def allTransitions (lts : TransitionSystem) : List Transition :=
  (lts.declarations.toList.map (·.transitions)).flatten

def stepCount (lts : TransitionSystem) : Nat := lts.allTransitions.length

theorem resolve_eq_ok_iff (lts : TransitionSystem) (name : String) (p : ProcessId) :
    lts.resolve name = .ok p ↔ lts.process? name = some p := by
  cases h : lts.process? name <;> simp [resolve, h]

theorem transitions_of_size_le (lts : TransitionSystem) (p : ProcessId)
    (h : lts.size ≤ p.index) : lts.transitions p = [] := by
  have hnone : lts.declarations[p.index]? = none := Array.getElem?_eq_none h
  simp [transitions, declaration?, hnone]

end TransitionSystem

end BisimPlay
