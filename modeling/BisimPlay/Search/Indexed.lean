import BisimPlay.Search
import Std.Data.HashSet.Lemmas

/-!
# Searching with an index

A search asks again and again whether it has seen a place. Here the places that have
been seen stand in a hash set, so that the question does not grow with the search.
The answers are those of the plain search: `Finds.toList_found_noteAll` and
`toList_withinIndexed` say so for what a list adds and for a whole search.
-/

namespace BisimPlay

namespace Search

variable {α : Type} [DecidableEq α] [Hashable α]

/-- What has been seen, and what of it has been found lately, in order. -/
structure Finds (α : Type) [DecidableEq α] [Hashable α] where
  seen : Std.HashSet α
  found : Array α

namespace Finds

def since (seen : Std.HashSet α) : Finds α := ⟨seen, #[]⟩

/-- Note a place: it is found unless it has been seen. -/
def note : Finds α → α → Finds α
  | ⟨seen, found⟩, a =>
    if a ∈ seen then ⟨seen, found⟩ else ⟨seen.insert a, found.push a⟩

def noteAll (finds : Finds α) (list : List α) : Finds α := list.foldl note finds

theorem mem_seen_noteAll (finds : Finds α) (list : List α) (a : α) :
    a ∈ (finds.noteAll list).seen ↔ a ∈ list ∨ a ∈ finds.seen := by
  unfold noteAll
  induction list generalizing finds with
  | nil => simp
  | cons b rest ih =>
      rw [List.foldl_cons, ih]
      by_cases hb : b ∈ finds.seen
      · by_cases hab : a = b
        · subst hab
          simp [note, hb]
        · simp [note, hb, hab]
      · simp only [note, hb, if_false, Std.HashSet.mem_insert, List.mem_cons, beq_iff_eq]
        grind

theorem noteAll_of_forall_mem (finds : Finds α) (list : List α)
    (h : ∀ a ∈ list, a ∈ finds.seen) : finds.noteAll list = finds := by
  unfold noteAll
  induction list with
  | nil => rfl
  | cons a rest ih =>
      obtain ⟨seen, found⟩ := finds
      have ha := h a (by simp)
      simpa [note, ha] using ih fun b hb => h b (by simp [hb])

theorem toList_found_noteAll (finds : Finds α) (seen list : List α)
    (hseen : ∀ a, a ∈ finds.seen ↔ a ∈ seen) :
    (finds.noteAll list).found.toList = finds.found.toList ++ fresh seen list := by
  unfold noteAll
  induction list generalizing finds seen with
  | nil => simp
  | cons b rest ih =>
      rw [List.foldl_cons]
      by_cases hb : b ∈ seen
      · rw [ih (finds.note b) seen (by simpa [note, (hseen b).2 hb] using hseen)]
        simp [note, (hseen b).2 hb, fresh, hb]
      · have hnew : b ∉ finds.seen := fun h => hb ((hseen b).1 h)
        have hnext : ∀ a, a ∈ (finds.note b).seen ↔ a ∈ b :: seen := by
          intro a
          simp only [note, hnew, if_false, Std.HashSet.mem_insert, List.mem_cons, beq_iff_eq,
            hseen]
          grind
        rw [ih (finds.note b) (b :: seen) hnext]
        simp [note, hnew, fresh, hb]

end Finds

/-- Note the neighbours of several places in order. -/
def noteNeighbours (neighbours : α → List α) (finds : Finds α) (places : Array α) :
    Finds α :=
  places.foldl (fun finds a => finds.noteAll (neighbours a)) finds

theorem noteNeighbours_eq (neighbours : α → List α) (finds : Finds α)
    (places : Array α) :
    noteNeighbours neighbours finds places =
      finds.noteAll (places.toList.flatMap neighbours) := by
  simp [noteNeighbours, Finds.noteAll, ← Array.foldl_toList, List.foldl_flatMap]

/-- The rounds of a search after those that have been listed: the frontier has been
seen, but not listed. -/
def roundsIndexed (neighbours : α → List α) :
    Nat → Std.HashSet α → Array α → Array α → Array α
  | 0, _, listed, frontier => listed ++ frontier
  | n + 1, seen, listed, frontier =>
    if frontier.isEmpty then listed
    else
      let finds := noteNeighbours neighbours (.since seen) frontier
      roundsIndexed neighbours n finds.seen (listed ++ frontier) finds.found

/-- The places within a distance of the start, breadth first. -/
def withinIndexed (neighbours : α → List α) (distance : Nat) (start : α) : Array α :=
  roundsIndexed neighbours distance ((∅ : Std.HashSet α).insert start) #[] #[start]

theorem toList_roundsIndexed (neighbours : α → List α) (n : Nat)
    (known : Std.HashSet α) (listed frontier : Array α) (seen : List α)
    (hseen : ∀ a, a ∈ known ↔ a ∈ seen) :
    (roundsIndexed neighbours n known listed frontier).toList =
      listed.toList ++ rounds neighbours n seen frontier.toList := by
  induction n generalizing known listed frontier seen with
  | zero => simp [roundsIndexed]
  | succ n ih =>
      by_cases hempty : frontier = #[]
      · simp [roundsIndexed, hempty]
      · have hfound := Finds.toList_found_noteAll (.since known) seen
          (frontier.toList.flatMap neighbours) (by simpa [Finds.since] using hseen)
        simp only [Finds.since, List.nil_append] at hfound
        simp only [roundsIndexed, noteNeighbours_eq, Array.isEmpty_iff, hempty, if_false]
        rw [ih _ _ _ (fresh seen (frontier.toList.flatMap neighbours) ++ seen)]
        · simp [rounds_succ, Finds.since, hfound]
        · intro a
          simp only [Finds.mem_seen_noteAll, Finds.since, hseen, List.mem_append, mem_fresh]
          grind

theorem toList_withinIndexed (neighbours : α → List α) (distance : Nat) (start : α) :
    (withinIndexed neighbours distance start).toList =
      within neighbours distance start := by
  rw [withinIndexed, toList_roundsIndexed neighbours distance _ _ _ [start]]
  · simp [within]
  · intro a
    simp only [Std.HashSet.mem_insert, Std.HashSet.not_mem_empty, or_false, beq_iff_eq,
      List.mem_singleton]
    exact eq_comm

end Search

end BisimPlay
