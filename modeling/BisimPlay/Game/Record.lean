import BisimPlay.Move
import BisimPlay.Notice

/-!
# The record of a game

A game is written down entry by entry: the number of a round before its attack, each
accepted move with the label of the process it leads to, and the winner at the end.
The entries keep the moves themselves, so the record can be replayed; their lines
are what is shown of them. A record that echoes turns each new entry into a notice.
-/

namespace BisimPlay

/-- An entry of a record. -/
inductive Entry
  /-- A round begins. -/
  | round (number : UInt32)
  /-- A role made a move to the process with the given label. -/
  | play (role : Role) (move : Move) (destination : String)
  /-- The game was won. -/
  | winner (role : Role)
deriving DecidableEq, Inhabited

namespace Entry

/-- An entry as one line. -/
def line : Entry → String
  | round number => "Round " ++ Decimal.render number.toNat ++ ":"
  | play role move destination =>
    "    " ++ role.text ++ ": --- " ++ move.action.label ++ " --->   " ++ destination
  | winner role => role.text ++ " wins."

/-- The move of an entry, if it is one. -/
def play? : Entry → Option (Role × Move)
  | play role move _ => some (role, move)
  | _ => none

/-- The winner that an entry names, if it is one. -/
def winner? : Entry → Option Role
  | winner role => some role
  | _ => none

end Entry

/-- The record of a game. -/
structure Record where
  entries : Array Entry
  echo : Bool
deriving DecidableEq, Inhabited

namespace Record

def blank (echo : Bool) : Record := ⟨#[], echo⟩

/-- Write an entry down. -/
def add (record : Record) (entry : Entry) : Record :=
  { record with entries := record.entries.push entry }

/-- What a record has to say about a new entry. -/
def remarks (record : Record) (entry : Entry) : List Notice :=
  if record.echo then [⟨.info, entry.line⟩] else []

def clear (record : Record) : Record := { record with entries := #[] }

def size (record : Record) : Nat := record.entries.size

def lines (record : Record) : List String := record.entries.toList.map Entry.line

def last? (record : Record) : Option String := record.entries.back?.map Entry.line

/-- The moves of a record in order. -/
def plays (record : Record) : List (Role × Move) :=
  record.entries.toList.filterMap Entry.play?

/-- The winner named last. -/
def winner? (record : Record) : Option Role :=
  (record.entries.toList.filterMap Entry.winner?).getLast?

@[simp] theorem entries_add (record : Record) (entry : Entry) :
    (record.add entry).entries = record.entries.push entry := rfl

@[simp] theorem size_add (record : Record) (entry : Entry) :
    (record.add entry).size = record.size + 1 := by
  simp [size]

theorem last?_eq (record : Record) : record.last? = record.lines.getLast? := by
  simp [last?, lines]

@[simp] theorem plays_clear (record : Record) : record.clear.plays = [] := rfl

theorem plays_add_play (record : Record) (role : Role) (move : Move)
    (destination : String) :
    (record.add (.play role move destination)).plays =
      record.plays ++ [(role, move)] := by
  simp [plays, Entry.play?]

theorem plays_add_of_play?_eq_none (record : Record) (entry : Entry)
    (h : entry.play? = none) : (record.add entry).plays = record.plays := by
  simp [plays, h]

end Record

end BisimPlay
