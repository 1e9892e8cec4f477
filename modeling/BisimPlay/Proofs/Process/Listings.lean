import BisimPlay.Proofs.Process.Reading
import Mathlib.Data.List.Induction

/-!
# What a listing says

A listing is read line by line into a roster that grows with every line. What it says can be
read off the whole text instead. It is a listing when each of its lines has no, one or three
words before the first hash sign, and the first line that has not is its fault. Its names are the
words in the places of processes, in order of first occurrence, and a name is numbered by its
place among them. The steps of a process are those of the lines of three words that begin with
its name, in order, also when two of them are equal.

The numbers are 32-bit words. Two names share a number, and then a row, only when there are more
names than words; nothing that is said in terms of numbers depends on it.
-/

namespace BisimPlay

open Roster

namespace Listing

def processWords : List String → List String
  | [name] => [name]
  | [source, _, target] => [source, target]
  | _ => []

def namesOf (entries : List (List String)) : List String :=
  (entries.flatMap processWords).eraseDups

def numberOf (entries : List (List String)) (name : String) : ProcessId :=
  .ofIndex ((namesOf entries).idxOf name)

/-- The step of a line of three words with an asked for source, under a numbering of names. -/
def stepFrom (number : String → ProcessId) (isSource : String → Bool) :
    List String → Option Transition
  | [source, action, target] =>
    if isSource source then some ⟨⟨action⟩, number target⟩ else none
  | _ => none

/-- The system whose names and steps are those of the lines. -/
def systemOf (entries : List (List String)) : TransitionSystem :=
  ⟨(namesOf entries).toArray.map fun name =>
    ⟨name, entries.filterMap (stepFrom (numberOf entries) (· = name))⟩⟩

variable {roster : Roster} {name : String} {words : List String} {all : List (List String)}

theorem stepFrom_congr {number : String → ProcessId} {isSource isOther : String → Bool}
    (h : ∀ source ∈ processWords words, isSource source = isOther source) :
    stepFrom number isSource words = stepFrom number isOther words := by
  fun_cases processWords words with
  | case2 source _ target => rw [stepFrom, stepFrom, h source (by simp [processWords])]
  | _ => simp [stepFrom, *]

theorem isInStep_editAll_edits (all : List (List String)) :
    (empty.editAll (all.flatMap edits)).IsInStep :=
  isInStep_editAll isInStep_empty _

theorem names_editAll_edits (all : List (List String)) :
    (empty.editAll (all.flatMap edits)).names.toList = namesOf all := by
  have hwords (words : List String) : (edits words).flatMap Edit.names = processWords words := by
    fun_cases processWords words <;> simp [edits, Edit.names, *]
  simp only [names_editAll, List.flatMap_assoc, hwords, namesOf]

theorem mem_names_editAll_edits :
    name ∈ (empty.editAll (all.flatMap edits)).names ↔ name ∈ namesOf all := by
  rw [← Array.mem_toList_iff, names_editAll_edits]

theorem process?_editAll_edits (h : name ∈ namesOf all) :
    (empty.editAll (all.flatMap edits)).process? name = some (numberOf all name) := by
  rw [(isInStep_editAll_edits all).process?_eq_idxOf (mem_names_editAll_edits.2 h),
    names_editAll_edits, numberOf]

theorem numberOf_inj {other : String} (hcount : (namesOf all).length ≤ 0x100000000)
    (hname : name ∈ namesOf all) (hother : other ∈ namesOf all) :
    numberOf all name = numberOf all other ↔ name = other := by
  constructor
  · intro h
    have hplace {name : String} (hmem : name ∈ namesOf all) :
        (numberOf all name).index = (namesOf all).idxOf name :=
      ProcessId.index_ofIndex _ (Nat.lt_of_lt_of_le (List.idxOf_lt_length_of_mem hmem) hcount)
    have hindex := congrArg ProcessId.index h
    rwa [hplace hname, hplace hother, List.idxOf_inj hname] at hindex
  · rintro rfl
    rfl

/-- Under the numbers that names have in the end, the steps of a process are those of the lines
that were met. -/
theorem transitions_editAll_edits (number : String → ProcessId)
    (hnumber : ∀ name ∈ namesOf all,
      (empty.editAll (all.flatMap edits)).process? name = some (number name)) (p : ProcessId) :
    (empty.editAll (all.flatMap edits)).transitions p =
      all.filterMap (stepFrom number (number · = p)) := by
  induction all using List.reverseRecOn with
  | nil => rfl
  | append_singleton all words ih =>
      have hstep := isInStep_editAll_edits all
      rw [List.flatMap_append, editAll_append, List.flatMap_singleton] at hnumber ⊢
      rw [List.filterMap_append, List.filterMap_cons, List.filterMap_nil]
      have hmem (name : String) : name ∈ namesOf (all ++ [words]) ↔
          name ∈ namesOf all ∨ name ∈ processWords words := by
        simp [namesOf]
      have hbefore := ih fun name hname => by
        have hprocess := process?_editAll_edits hname
        have hlater := (hstep.extends_editAll (edits words)).process?_eq_some _ _ hprocess
        rw [hnumber name ((hmem name).2 (.inl hname))] at hlater
        rw [hprocess, Option.some.inj hlater]
      fun_cases edits words with
      | case1 name => simpa [stepFrom, edit, transitions_declare] using hbefore
      | case2 source action target =>
          have hsource := hnumber source ((hmem source).2 (.inr (by simp [processWords])))
          have htarget := hnumber target ((hmem target).2 (.inr (by simp [processWords])))
          rw [editAll_cons, editAll_nil, edit, hstep.transitions_connect hsource htarget, hbefore]
          by_cases hp : number source = p <;> simp [stepFrom, hp]
      | case3 words hname hconnect => simpa [stepFrom, hname, hconnect] using hbefore

theorem transitions_editAll_edits_of_name?_eq_some {p : ProcessId}
    (hcount : (namesOf all).length ≤ 0x100000000)
    (hp : (empty.editAll (all.flatMap edits)).name? p = some name) :
    (empty.editAll (all.flatMap edits)).transitions p =
      all.filterMap (stepFrom (numberOf all) (· = name)) := by
  have hstep := isInStep_editAll_edits all
  have hsize : (empty.editAll (all.flatMap edits)).size ≤ 0x100000000 := by
    rwa [size, ← Array.length_toList, names_editAll_edits]
  have hprocess := (hstep.process?_eq_some_iff hsize).2 hp
  have hmem : name ∈ namesOf all :=
    mem_names_editAll_edits.1 (hstep.exists_process?_eq_some_iff.1 ⟨p, hprocess⟩)
  rw [process?_editAll_edits hmem] at hprocess
  obtain rfl := Option.some.inj hprocess
  rw [transitions_editAll_edits (numberOf all) fun name => process?_editAll_edits]
  refine List.filterMap_congr fun words hwords => stepFrom_congr fun source hsource => ?_
  have hmemsource : source ∈ namesOf all :=
    List.mem_eraseDups.2 (List.mem_flatMap.2 ⟨words, hwords, hsource⟩)
  simp only [numberOf_inj hcount hmemsource hmem]

/-- Reading accepts a text when each of its lines has no, one or three words, and otherwise
names the first line that has not, by its number and without the blanks around it. The system of
an accepted text has the process words as its names, in order of first occurrence. Names and
places determine each other. The steps of a process are those of the lines of three words that
begin with its name, in order, each with the number of its last word. -/
theorem read_eq_iff_entries (text : String) :
    ((∃ lts, read text = .ok lts) ↔ ∀ words ∈ entries text, words.length ∈ [0, 1, 3]) ∧
    (∀ fault, read text = .error fault ↔ ∃ before line after,
      rawLines text = before ++ line :: after ∧
        (∀ earlier ∈ before, (entry earlier).length ∈ [0, 1, 3]) ∧
        (entry line).length ∉ [0, 1, 3] ∧
        fault = .malformedLine (before.length + 1) (.ofList (Text.trim line))) ∧
    ∀ lts, read text = .ok lts →
      lts.names = ((entries text).flatMap processWords).eraseDups ∧
      (∀ i name, lts.names[i]? = some name → lts.process? name = some (.ofIndex i)) ∧
      (∀ name, name ∉ lts.names → lts.process? name = none) ∧
      (∀ p, lts.name? p = lts.names[p.index]?) ∧
      (∀ p, lts.transitions p = (entries text).filterMap
        (stepFrom (numberOf (entries text)) (numberOf (entries text) · = p))) ∧
      (lts.names.length ≤ 0x100000000 →
        (∀ name p, lts.process? name = some p ↔ lts.name? p = some name) ∧
        ∀ name p, lts.name? p = some name → lts.transitions p = (entries text).filterMap
          (stepFrom (numberOf (entries text)) (· = name))) := by
  refine ⟨?accepted, fun fault => ?fault, fun lts hread => ?system⟩
  case accepted =>
    simp only [read_eq_ok_iff, exists_and_left, exists_eq, and_true]
  case fault =>
    rw [read_eq_error_iff, readRoster_eq_error_iff]
  case system =>
    obtain ⟨-, rfl⟩ := read_eq_ok_iff.1 hread
    have hstep := isInStep_editAll_edits (entries text)
    have hnames := names_editAll_edits (entries text)
    have hrows := transitions_editAll_edits (numberOf (entries text)) fun name =>
      process?_editAll_edits
    simp only [hstep.names_toSystem, hstep.process?_toSystem, hstep.name?_toSystem,
      hstep.transitions_toSystem]
    refine ⟨hnames, fun i name hi => ?_, fun name hname => ?_, fun p => ?_, hrows,
      fun hcount => ⟨fun name p => hstep.process?_eq_some_iff hcount, fun name p => ?_⟩⟩
    · obtain ⟨hlt, rfl⟩ := List.getElem?_eq_some_iff.1 hi
      rw [hstep.process?_eq_idxOf (by simp), hstep.nodup_names.idxOf_getElem i hlt]
    · exact hstep.process?_eq_none_iff.2 (by simpa using hname)
    · rw [name?, Array.getElem?_toList]
    · exact transitions_editAll_edits_of_name?_eq_some (hnames ▸ hcount)

/-- The system of a listing can be read off its lines, unless they have more names than there
are numbers. -/
theorem read_eq_ok_systemOf {text : String}
    (hwords : ∀ words ∈ entries text, words.length ∈ [0, 1, 3])
    (hcount : (namesOf (entries text)).length ≤ 0x100000000) :
    read text = .ok (systemOf (entries text)) := by
  refine read_eq_ok_iff.2 ⟨hwords, ?_⟩
  have hstep := isInStep_editAll_edits (entries text)
  have hnames := names_editAll_edits (entries text)
  rw [systemOf, ← hnames, Array.toArray_toList]
  refine (hstep.toSystem_eq ?_ fun p name => ?_).symm
  · rwa [size, ← Array.length_toList, hnames]
  · exact transitions_editAll_edits_of_name?_eq_some hcount

/-- The carriage return of the second line belongs to no line end, but it is blank. `R` is
declared as a target before its own line, and the step to it is there twice. -/
example : read "P a\u3000R # b Q\r\nR\r#\n\nP a R" =
    .ok ⟨#[⟨"P", [⟨⟨"a"⟩, .ofIndex 1⟩, ⟨⟨"a"⟩, .ofIndex 1⟩]⟩, ⟨"R", []⟩]⟩ := by
  rw [read_eq_ok_systemOf] <;> decide +kernel

end Listing

end BisimPlay
