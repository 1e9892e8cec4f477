import BisimPlay.Process.Roster
import BisimPlay.Text.Line

/-!
# Listings of transition systems

A transition system is written as a text of one entry per line. A line of one word
declares a process, a line of three words connects a source by an action to a
target, and a line without words says nothing. A hash sign starts a comment that
runs to the end of its line. Any other number of words is malformed, and the first
malformed line is the fault of the whole text.
-/

namespace BisimPlay

namespace Listing

/-- The words of a line that count: those before its first hash sign. -/
def entryWords (line : List Char) : List (List Char) :=
  Text.words (line.takeWhile (· ≠ '#'))

/-- What a line adds to a roster; `none` when the line is malformed. -/
def readLine (roster : Roster) (line : List Char) : Option Roster :=
  match entryWords line with
  | [] => some roster
  | [name] => some (roster.declare (.ofList name)).2
  | [source, action, target] =>
    some (roster.connect (.ofList source) (.ofList action) (.ofList target)).2
  | _ => none

/-- Read the lines of a listing, the first of which has the given number. -/
def readLines (roster : Roster) (number : Nat) : List (List Char) → Except Fault Roster
  | [] => .ok roster
  | line :: rest =>
    match readLine roster line with
    | some roster => readLines roster (number + 1) rest
    | none => .error (.malformedLine number (.ofList (Text.trim line)))

/-- Read a listing into tables. Lines are numbered from one. -/
def readRoster (text : String) : Except Fault Roster :=
  readLines .empty 1 (Text.lines text.toList)

/-- Read a listing. -/
def read (text : String) : Except Fault TransitionSystem :=
  (readRoster text).map Roster.toSystem

@[simp] theorem readLines_nil (roster : Roster) (number : Nat) :
    readLines roster number [] = .ok roster := rfl

theorem readLines_cons_of_readLine_eq_some (roster next : Roster)
    (number : Nat) (line : List Char) (rest : List (List Char))
    (h : readLine roster line = some next) :
    readLines roster number (line :: rest) = readLines next (number + 1) rest := by
  simp [readLines, h]

theorem readLines_cons_of_readLine_eq_none (roster : Roster)
    (number : Nat) (line : List Char) (rest : List (List Char))
    (h : readLine roster line = none) :
    readLines roster number (line :: rest) =
      .error (.malformedLine number (.ofList (Text.trim line))) := by
  simp [readLines, h]

end Listing

end BisimPlay
