import BisimPlay.Process.Listing
import BisimPlay.Proofs.Process.Edits
import BisimPlay.Proofs.Splits
import BisimPlay.Proofs.Text.Lines

/-!
# Reading as a run of edits

A listing is read line by line into a roster that grows with every line. The words that a line
has before its first hash sign ask for one edit at most, and what reading yields are the edits
of all lines, carried out on the empty roster (`readRoster_eq_ok_iff`). The first line that has
not none, one or three words is the fault of the text (`readRoster_eq_error_iff`).
-/

namespace BisimPlay

open Roster

namespace Listing

def rawLines (text : String) : List (List Char) := Text.splitLines text.toList

/-- The words of a line before its first hash sign. These should be none, one or three. -/
def entry (line : List Char) : List String :=
  (Text.splitWords (line.takeWhile (· ≠ '#'))).map .ofList

def entries (text : String) : List (List String) := (rawLines text).map entry

def edits : List String → List Edit
  | [name] => [.declare name]
  | [source, action, target] => [.connect source action target]
  | _ => []

variable {roster next : Roster} {lts : TransitionSystem} {text : String} {number : Nat}
  {lines : List (List Char)} {fault : Fault}

theorem readLine_eq (roster : Roster) (line : List Char) :
    readLine roster line =
      if (entry line).length ∈ [0, 1, 3] then some (roster.editAll (edits (entry line)))
      else none := by
  have hentry : entry line = (entryWords line).map .ofList := by
    rw [entry, entryWords, Text.words_eq_splitWords]
  rw [readLine, hentry]
  rcases entryWords line with _ | ⟨first, _ | ⟨second, _ | ⟨third, _ | ⟨fourth, rest⟩⟩⟩⟩ <;>
    simp [edits, edit]

theorem readLine_eq_some_of_mem (h : (entry line).length ∈ [0, 1, 3]) (roster : Roster) :
    readLine roster line = some (roster.editAll (edits (entry line))) :=
  (readLine_eq roster line).trans (if_pos h)

theorem readLine_eq_none_of_not_mem (h : (entry line).length ∉ [0, 1, 3]) (roster : Roster) :
    readLine roster line = none :=
  (readLine_eq roster line).trans (if_neg h)

theorem readLines_eq_ok_iff :
    readLines roster number lines = .ok next ↔
      (∀ line ∈ lines, (entry line).length ∈ [0, 1, 3]) ∧
        next = roster.editAll ((lines.map entry).flatMap edits) := by
  induction lines generalizing roster number with
  | nil => simp [eq_comm]
  | cons line rest ih =>
      rw [List.forall_mem_cons]
      by_cases hline : (entry line).length ∈ [0, 1, 3]
      · rw [readLines_cons_of_readLine_eq_some _ _ _ _ _ (readLine_eq_some_of_mem hline roster),
          ih, and_iff_right hline, List.map_cons, List.flatMap_cons, editAll_append]
      · rw [readLines_cons_of_readLine_eq_none _ _ _ _ (readLine_eq_none_of_not_mem hline roster)]
        exact iff_of_false (by simp) fun h => hline h.1.1

theorem readLines_eq_error_iff :
    readLines roster number lines = .error fault ↔ ∃ before line after,
      lines = before ++ line :: after ∧
        (∀ earlier ∈ before, (entry earlier).length ∈ [0, 1, 3]) ∧
        (entry line).length ∉ [0, 1, 3] ∧
        fault = .malformedLine (before.length + number) (.ofList (Text.trim line)) := by
  induction lines generalizing roster number with
  | nil => simp
  | cons first rest ih =>
      have hnumber (before : List (List Char)) :
          (first :: before).length + number = before.length + (number + 1) := by
        rw [List.length_cons, Nat.add_assoc, Nat.add_comm 1]
      rw [exists_split_cons_iff]
      simp only [List.forall_mem_cons, hnumber]
      by_cases hfirst : (entry first).length ∈ [0, 1, 3]
      · rw [readLines_cons_of_readLine_eq_some _ _ _ _ _ (readLine_eq_some_of_mem hfirst roster),
          ih]
        simp only [hfirst, not_true, false_and, and_false, false_or, true_and]
      · rw [readLines_cons_of_readLine_eq_none _ _ _ _ (readLine_eq_none_of_not_mem hfirst roster)]
        simp [hfirst, eq_comm]

theorem readRoster_eq_ok_iff :
    readRoster text = .ok roster ↔ (∀ words ∈ entries text, words.length ∈ [0, 1, 3]) ∧
      roster = empty.editAll ((entries text).flatMap edits) := by
  rw [readRoster, Text.lines_eq_splitLines, readLines_eq_ok_iff, entries, List.forall_mem_map]
  rfl

theorem readRoster_eq_error_iff :
    readRoster text = .error fault ↔ ∃ before line after,
      rawLines text = before ++ line :: after ∧
        (∀ earlier ∈ before, (entry earlier).length ∈ [0, 1, 3]) ∧
        (entry line).length ∉ [0, 1, 3] ∧
        fault = .malformedLine (before.length + 1) (.ofList (Text.trim line)) := by
  rw [readRoster, Text.lines_eq_splitLines, readLines_eq_error_iff]
  rfl

theorem isInStep_of_readRoster (h : readRoster text = .ok roster) : roster.IsInStep := by
  obtain ⟨-, rfl⟩ := readRoster_eq_ok_iff.1 h
  exact isInStep_editAll isInStep_empty _

theorem read_eq_ok_iff :
    read text = .ok lts ↔ (∀ words ∈ entries text, words.length ∈ [0, 1, 3]) ∧
      lts = (empty.editAll ((entries text).flatMap edits)).toSystem := by
  have hmap : read text = .ok lts ↔
      ∃ roster, readRoster text = .ok roster ∧ roster.toSystem = lts := by
    cases h : readRoster text <;> simp [read, h, Except.map]
  rw [hmap]
  constructor
  · rintro ⟨roster, hread, rfl⟩
    obtain ⟨hwords, rfl⟩ := readRoster_eq_ok_iff.1 hread
    exact ⟨hwords, rfl⟩
  · rintro ⟨hwords, rfl⟩
    exact ⟨_, readRoster_eq_ok_iff.2 ⟨hwords, rfl⟩, rfl⟩

theorem read_eq_error_iff : read text = .error fault ↔ readRoster text = .error fault := by
  cases h : readRoster text <;> simp [read, h, Except.map]

end Listing

end BisimPlay
