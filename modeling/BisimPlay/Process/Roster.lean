import BisimPlay.Process.System
import Std.Data.HashMap.Lemmas

/-!
# Rosters

While a transition system is put together it is kept in three tables: the names of the
processes in order of declaration, beside each name the row of its steps, and the
number of each name, so that a name is not searched for among the others. Nothing is
ever removed: declaring appends a name and a row and enters a number, connecting appends
a step to a row. The system that the tables describe is `toSystem`.
-/

namespace BisimPlay

/-- Names, rows of steps and numbers of names. -/
structure Roster where
  names : Array String
  rows : Array (List Transition)
  numbers : Std.HashMap String ProcessId

namespace Roster

def empty : Roster := ⟨#[], #[], ∅⟩

def size (roster : Roster) : Nat := roster.names.size

def process? (roster : Roster) (name : String) : Option ProcessId := roster.numbers[name]?

/-- The process of a name, or the fault that there is none. -/
def resolve (roster : Roster) (name : String) : Except Fault ProcessId :=
  match roster.process? name with
  | some p => .ok p
  | none => .error (.unknownProcess name)

def name? (roster : Roster) (p : ProcessId) : Option String := roster.names[p.index]?

/-- A process is shown by its name, or by its number when it has none. -/
def label (roster : Roster) (p : ProcessId) : String := (roster.name? p).getD p.text

/-- The row of a process, empty when it has none. -/
def transitions (roster : Roster) (p : ProcessId) : List Transition :=
  roster.rows[p.index]?.getD []

/-- Declare a process, with an empty row. A name that has a number already keeps it,
and the roster is unchanged. -/
def declare (roster : Roster) (name : String) : ProcessId × Roster :=
  match roster.process? name with
  | some p => (p, roster)
  | none =>
    (.ofIndex roster.size,
      ⟨roster.names.push name, roster.rows.push [],
        roster.numbers.insert name (.ofIndex roster.size)⟩)

/-- Append a step to the row of its source; the target need not be declared. It says
whether there is a row: without one the call fails before anything is written. -/
def addTransition (roster : Roster) (source : ProcessId) (step : Transition) :
    Bool × Roster :=
  (source.index < roster.rows.size,
    { roster with rows := roster.rows.modify source.index (· ++ [step]) })

/-- Connect two processes given by name, declaring the source and then the target as
needed. Names that were declared stay declared if the step cannot be added. -/
def connect (roster : Roster) (source action target : String) : Bool × Roster :=
  let (source, roster) := roster.declare source
  let (target, roster) := roster.declare target
  roster.addTransition source ⟨⟨action⟩, target⟩

/-- The system that the tables describe. -/
def toSystem (roster : Roster) : TransitionSystem :=
  ⟨roster.names.zipWith Declaration.mk roster.rows⟩

variable {roster : Roster} {name : String} {p : ProcessId}

theorem resolve_eq_ok_iff : roster.resolve name = .ok p ↔ roster.process? name = some p := by
  cases h : roster.process? name <;> simp [resolve, h]

theorem declare_of_process?_eq_some (h : roster.process? name = some p) :
    roster.declare name = (p, roster) := by
  simp [declare, h]

theorem declare_of_process?_eq_none (h : roster.process? name = none) :
    roster.declare name =
      (.ofIndex roster.size,
        ⟨roster.names.push name, roster.rows.push [],
          roster.numbers.insert name (.ofIndex roster.size)⟩) := by
  simp [declare, h]

end Roster

end BisimPlay
