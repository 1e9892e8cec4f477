/-!
# Breadth-first search

A search starts at one place and looks at the neighbours of what it has found, one
round after the other. `fresh` keeps from a list what has not been seen, each
member once and in order of first occurrence; a round takes the fresh part of all
neighbours of the last round's finds. Reading the rounds one after the other gives
the order in which a queue would have visited the places.

A search that is given a round for each place with neighbours finds all that can be
reached: its finds are closed under neighbours, and they lie in every closed set that
holds the start. So what is within reach of a find is within reach of the start
(`mem_within_trans`).
-/

namespace BisimPlay

namespace Search

variable {α : Type} [DecidableEq α]

/-- What a list adds to the places already seen: its unseen members, each once, in
order of first occurrence. -/
def fresh (seen : List α) : List α → List α
  | [] => []
  | a :: rest => if a ∈ seen then fresh seen rest else a :: fresh (a :: seen) rest

/-- The rounds of a search, read one after the other, from a frontier that has just
been found. The first number bounds the rounds that may follow; the search also
ends when a round finds nothing. -/
def rounds (neighbours : α → List α) : Nat → List α → List α → List α
  | _, _, [] => []
  | 0, _, frontier => frontier
  | n + 1, seen, frontier =>
    let found := fresh seen (frontier.flatMap neighbours)
    frontier ++ rounds neighbours n (found ++ seen) found

/-- The places within a distance of the start, breadth first. -/
def within (neighbours : α → List α) (distance : Nat) (start : α) : List α :=
  rounds neighbours distance [start] [start]

@[simp] theorem fresh_nil (seen : List α) : fresh seen [] = [] := rfl

theorem mem_fresh (seen list : List α) (a : α) :
    a ∈ fresh seen list ↔ a ∈ list ∧ a ∉ seen := by
  induction list generalizing seen with
  | nil => simp
  | cons b rest ih =>
      by_cases hb : b ∈ seen
      · by_cases hab : a = b
        · subst hab
          simp [fresh, hb, ih]
        · simp [fresh, hb, ih, hab]
      · by_cases hab : a = b
        · subst hab
          simp [fresh, hb]
        · simp [fresh, hb, ih, hab]

theorem nodup_fresh (seen list : List α) : (fresh seen list).Nodup := by
  induction list generalizing seen with
  | nil => simp
  | cons b rest ih =>
      by_cases hb : b ∈ seen
      · simpa [fresh, hb] using ih seen
      · simp [fresh, hb, ih, mem_fresh]

@[simp] theorem rounds_nil (neighbours : α → List α) (n : Nat) (seen : List α) :
    rounds neighbours n seen [] = [] := by
  cases n <;> rfl

@[simp] theorem rounds_zero (neighbours : α → List α) (seen frontier : List α) :
    rounds neighbours 0 seen frontier = frontier := by
  cases frontier <;> rfl

/-- A search lists its frontier and goes on with what the frontier finds; an empty
frontier finds nothing. -/
theorem rounds_succ (neighbours : α → List α) (n : Nat) (seen frontier : List α) :
    rounds neighbours (n + 1) seen frontier =
      frontier ++ rounds neighbours n
        (fresh seen (frontier.flatMap neighbours) ++ seen)
        (fresh seen (frontier.flatMap neighbours)) := by
  cases frontier with
  | nil => simp
  | cons a rest => rfl

theorem forall_mem_rounds (neighbours : α → List α) (inside : α → Prop)
    (hclosed : ∀ a, inside a → ∀ b ∈ neighbours a, inside b) (n : Nat)
    (seen frontier : List α) (hfrontier : ∀ a ∈ frontier, inside a) :
    ∀ a ∈ rounds neighbours n seen frontier, inside a := by
  induction n generalizing seen frontier with
  | zero => simpa using hfrontier
  | succ n ih =>
      intro a ha
      rw [rounds_succ, List.mem_append] at ha
      rcases ha with ha | ha
      · exact hfrontier a ha
      · refine ih _ _ ?_ a ha
        intro b hb
        obtain ⟨c, hc, hbc⟩ := List.mem_flatMap.1 ((mem_fresh _ _ _).1 hb).1
        exact hclosed c (hfrontier c hc) b hbc

/-- When the rounds outnumber the places with neighbours that are still to be
expanded, the places that have been expanded and the rounds that follow are closed
under neighbours. -/
theorem closed_rounds (neighbours : α → List α) (sources : List α)
    (hsources : ∀ a, neighbours a ≠ [] → a ∈ sources) (n : Nat)
    (expanded seen frontier : List α)
    (hn : (sources.filter fun a => a ∉ expanded).length ≤ n)
    (hnew : ∀ a ∈ frontier, a ∉ expanded)
    (hseen : ∀ a, a ∈ seen ↔ a ∈ expanded ∨ a ∈ frontier)
    (hexpanded : ∀ a ∈ expanded, ∀ b ∈ neighbours a, b ∈ seen) :
    ∀ a, a ∈ expanded ∨ a ∈ rounds neighbours n seen frontier →
      ∀ b ∈ neighbours a, b ∈ expanded ∨ b ∈ rounds neighbours n seen frontier := by
  induction n generalizing expanded seen frontier with
  | zero =>
      intro a ha b hb
      rw [rounds_zero] at ha ⊢
      rcases ha with ha | ha
      · exact (hseen b).1 (hexpanded a ha b hb)
      · have hsource := hsources a (List.ne_nil_of_mem hb)
        have hmem : a ∈ sources.filter fun a => a ∉ expanded := by
          simpa [hsource] using hnew a ha
        rw [List.length_eq_zero_iff.1 (Nat.le_zero.1 hn)] at hmem
        exact absurd hmem List.not_mem_nil
  | succ n ih =>
      by_cases hend : ∀ a ∈ frontier, neighbours a = []
      · have hnone : frontier.flatMap neighbours = [] := by simpa using hend
        intro a ha b hb
        simp only [rounds_succ, hnone, fresh_nil, rounds_nil, List.append_nil] at ha ⊢
        rcases ha with ha | ha
        · exact (hseen b).1 (hexpanded a ha b hb)
        · simp [hend a ha] at hb
      · obtain ⟨source, hsource⟩ := Classical.not_forall.1 hend
        obtain ⟨hfrontier, hneighbours⟩ := Classical.not_imp.1 hsource
        have hlater := ih (frontier ++ expanded)
          (fresh seen (frontier.flatMap neighbours) ++ seen)
          (fresh seen (frontier.flatMap neighbours)) ?_ ?_ ?_ ?_
        · intro a ha b hb
          have hlast := hlater a
            (by simpa [rounds_succ, or_assoc, or_left_comm] using ha) b hb
          simpa [rounds_succ, or_assoc, or_left_comm] using hlast
        · have hsplit : (sources.filter fun a => a ∉ frontier ++ expanded) =
              (sources.filter fun a => a ∉ expanded).filter fun a => a ∉ frontier := by
            rw [List.filter_filter]
            congr 1
            funext a
            simp
          have hless : ((sources.filter fun a => a ∉ expanded).filter
              fun a => a ∉ frontier).length <
                (sources.filter fun a => a ∉ expanded).length :=
            List.length_filter_lt_length_iff_exists.2
              ⟨source, by simp [hsources source hneighbours, hnew source hfrontier],
                by simpa using hfrontier⟩
          rw [hsplit]
          omega
        · intro a ha
          have hunseen := ((mem_fresh _ _ _).1 ha).2
          rw [hseen] at hunseen
          simpa [and_comm, not_or] using hunseen
        · intro a
          simp only [List.mem_append, hseen]
          grind
        · intro a ha b hb
          simp only [List.mem_append, mem_fresh, List.mem_flatMap]
          by_cases hknown : b ∈ seen
          · exact .inr hknown
          · refine .inl ⟨?_, hknown⟩
            rcases List.mem_append.1 ha with ha | ha
            · exact ⟨a, ha, hb⟩
            · exact absurd (hexpanded a ha b hb) hknown

theorem mem_within_self (neighbours : α → List α) (n : Nat) (start : α) :
    start ∈ within neighbours n start := by
  cases n with
  | zero => simp [within]
  | succ n => simp [within, rounds_succ]

/-- The finds of a search are closed under neighbours, when there is a round for each
place with neighbours. -/
theorem mem_within_of_mem_neighbours (neighbours : α → List α) (sources : List α)
    (hsources : ∀ a, neighbours a ≠ [] → a ∈ sources) (n : Nat)
    (hn : sources.length ≤ n) {a b c : α} (hab : b ∈ within neighbours n a)
    (hbc : c ∈ neighbours b) : c ∈ within neighbours n a := by
  have hclosed := closed_rounds neighbours sources hsources n [] [a] [a]
    (Nat.le_trans (List.length_filter_le _ _) hn) (by simp) (by simp) (by simp)
  simp only [List.not_mem_nil, false_or] at hclosed
  exact hclosed b hab c hbc

/-- What is within reach of a find is within reach of the start, when there is a
round for each place with neighbours. -/
theorem mem_within_trans (neighbours : α → List α) (sources : List α)
    (hsources : ∀ a, neighbours a ≠ [] → a ∈ sources) (n : Nat)
    (hn : sources.length ≤ n) {a b c : α} (hab : b ∈ within neighbours n a)
    (hbc : c ∈ within neighbours n b) : c ∈ within neighbours n a := by
  have hclosed : ∀ b, b ∈ within neighbours n a →
      ∀ c ∈ neighbours b, c ∈ within neighbours n a := fun _ hb _ hc =>
    mem_within_of_mem_neighbours neighbours sources hsources n hn hb hc
  exact forall_mem_rounds neighbours (· ∈ within neighbours n a) hclosed n [b] [b]
    (by simpa using hab) c hbc

end Search

end BisimPlay
