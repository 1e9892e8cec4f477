import BisimPlay.Search
import Mathlib.Data.List.Basic
import Mathlib.Data.Set.Function

/-!
# Searches under a renaming

A search looks at its places only to see whether they are equal. So when a map renames the
places that a search may come upon, and names no two of them alike, the search among the
renamed places finds the renamed finds, in the same order (`within_map`).

How many rounds a search is given makes no difference either, once they are enough
(`within_eq_of_le`): one round more could only append places that have not been found, and
there are none.
-/

namespace BisimPlay

namespace Search

variable {α β γ δ : Type} {f : α → β} {s : Set α}

theorem flatMap_map_eq {next : α → List γ} {next' : β → List δ} {g : γ → δ} {list : List α}
    (h : ∀ a ∈ list, next' (f a) = (next a).map g) :
    (list.map f).flatMap next' = (list.flatMap next).map g := by
  rw [List.flatMap_map, List.map_flatMap]
  exact List.flatMap_congr h

theorem mem_map_iff_of_injOn (hf : Set.InjOn f s) {list : List α} {a : α}
    (hlist : ∀ b ∈ list, b ∈ s) (ha : a ∈ s) : f a ∈ list.map f ↔ a ∈ list := by
  constructor
  · intro h
    obtain ⟨b, hb, heq⟩ := List.mem_map.1 h
    rwa [← hf (hlist b hb) ha heq]
  · exact List.mem_map_of_mem

variable [DecidableEq α] [DecidableEq β] {neighbours : α → List α}
  {neighbours' : β → List β}

theorem fresh_map (hf : Set.InjOn f s) {seen list : List α} (hseen : ∀ a ∈ seen, a ∈ s)
    (hlist : ∀ a ∈ list, a ∈ s) :
    fresh (seen.map f) (list.map f) = (fresh seen list).map f := by
  induction list generalizing seen with
  | nil => rfl
  | cons a rest ih =>
      obtain ⟨ha, hrest⟩ := List.forall_mem_cons.1 hlist
      have hmem := mem_map_iff_of_injOn hf hseen ha
      by_cases hknown : a ∈ seen
      · simp [fresh, hknown, hmem, ih hseen hrest]
      · have hlater := ih (List.forall_mem_cons.2 ⟨ha, hseen⟩) hrest
        rw [List.map_cons] at hlater
        simp [fresh, hknown, hmem, hlater]

theorem rounds_map (hf : Set.InjOn f s) (hclosed : ∀ a ∈ s, ∀ b ∈ neighbours a, b ∈ s)
    (hneighbours : ∀ a ∈ s, neighbours' (f a) = (neighbours a).map f) (n : Nat)
    {seen frontier : List α} (hseen : ∀ a ∈ seen, a ∈ s)
    (hfrontier : ∀ a ∈ frontier, a ∈ s) :
    rounds neighbours' n (seen.map f) (frontier.map f) =
      (rounds neighbours n seen frontier).map f := by
  induction n generalizing seen frontier with
  | zero => simp
  | succ n ih =>
      have hnext : ∀ b ∈ frontier.flatMap neighbours, b ∈ s := by
        intro b hb
        obtain ⟨a, ha, hab⟩ := List.mem_flatMap.1 hb
        exact hclosed a (hfrontier a ha) b hab
      have hflat : (frontier.map f).flatMap neighbours' =
          (frontier.flatMap neighbours).map f :=
        flatMap_map_eq fun a ha => hneighbours a (hfrontier a ha)
      have hfound : ∀ b ∈ fresh seen (frontier.flatMap neighbours), b ∈ s :=
        fun b hb => hnext b ((mem_fresh _ _ b).1 hb).1
      rw [rounds_succ, rounds_succ, hflat, fresh_map hf hseen hnext, ← List.map_append,
        ih (List.forall_mem_append.2 ⟨hfound, hseen⟩) hfound, List.map_append]

theorem within_map (hf : Set.InjOn f s) (hclosed : ∀ a ∈ s, ∀ b ∈ neighbours a, b ∈ s)
    (hneighbours : ∀ a ∈ s, neighbours' (f a) = (neighbours a).map f) (n : Nat) {a : α}
    (ha : a ∈ s) : within neighbours' n (f a) = (within neighbours n a).map f := by
  have hsource : ∀ b ∈ [a], b ∈ s := List.forall_mem_singleton.2 ha
  exact rounds_map hf hclosed hneighbours n hsource hsource

theorem exists_rounds_succ_eq_append (neighbours : α → List α) (n : Nat)
    {seen frontier : List α} (hfrontier : frontier ⊆ seen) :
    ∃ found, rounds neighbours (n + 1) seen frontier =
        rounds neighbours n seen frontier ++ found ∧
      ∀ b ∈ found, b ∉ seen ∧ b ∉ rounds neighbours n seen frontier ∧
        ∃ a ∈ rounds neighbours n seen frontier, b ∈ neighbours a := by
  induction n generalizing seen frontier with
  | zero =>
      refine ⟨fresh seen (frontier.flatMap neighbours), by simp [rounds_succ], ?_⟩
      intro b hb
      rw [mem_fresh, List.mem_flatMap] at hb
      rw [rounds_zero]
      exact ⟨hb.2, fun hmem => hb.2 (hfrontier hmem), hb.1⟩
  | succ n ih =>
      obtain ⟨found, heq, hfound⟩ := ih
        (List.subset_append_left (fresh seen (frontier.flatMap neighbours)) seen)
      refine ⟨found, ?_, fun b hb => ?_⟩
      · rw [rounds_succ, heq, rounds_succ neighbours n, List.append_assoc]
      · obtain ⟨hunseen, hnew, a, ha, hab⟩ := hfound b hb
        rw [List.mem_append, not_or] at hunseen
        rw [rounds_succ]
        refine ⟨hunseen.2, ?_, a, List.mem_append_right _ ha, hab⟩
        rw [List.mem_append, not_or]
        exact ⟨fun hmem => hunseen.2 (hfrontier hmem), hnew⟩

/-- Rounds beyond one for each place with neighbours change nothing. -/
theorem within_eq_of_le (neighbours : α → List α) (sources : List α)
    (hsources : ∀ a, neighbours a ≠ [] → a ∈ sources) {m n : Nat}
    (hm : sources.length ≤ m) (hmn : m ≤ n) (a : α) :
    within neighbours n a = within neighbours m a := by
  induction n, hmn using Nat.le_induction with
  | base => rfl
  | succ n hmn ih =>
      obtain ⟨found, heq, hfound⟩ :=
        exists_rounds_succ_eq_append neighbours n (List.Subset.refl [a])
      have hnone : found = [] := by
        rw [List.eq_nil_iff_forall_not_mem]
        intro c hc
        obtain ⟨_, hnew, b, hb, hbc⟩ := hfound c hc
        exact hnew (mem_within_of_mem_neighbours neighbours sources hsources n
          (hm.trans hmn) hb hbc)
      rw [← ih, within, heq, hnone, List.append_nil, within]

end Search

end BisimPlay
