import BisimPlay.Proofs.Search.Renaming

/-!
# Searching with a queue

A search may also keep a queue of the places that it has found and not yet visited: it takes
the first one, and puts the neighbours that have not been seen at the end. Such a search
visits the places of a round before those that the round finds, so it visits them in the
order of the rounds; and it comes to an end when the rounds do (`drains_within`).
-/

namespace BisimPlay

namespace Search

variable {α : Type} [DecidableEq α] {neighbours : α → List α}
  {seen seen' list others queue order frontier : List α}

/-- A queue is drained: its places are visited one after the other, each puts its unseen
neighbours at the end, and none is left. The last list has the places in the order in which
they are visited. -/
inductive Drains (neighbours : α → List α) : List α → List α → List α → Prop
  | nil {seen : List α} : Drains neighbours seen [] []
  | cons {seen queue order : List α} {a : α}
      (hrest : Drains neighbours (fresh seen (neighbours a) ++ seen)
        (queue ++ fresh seen (neighbours a)) order) :
      Drains neighbours seen (a :: queue) (a :: order)

theorem fresh_congr (h : ∀ a, a ∈ seen ↔ a ∈ seen') (list : List α) :
    fresh seen list = fresh seen' list := by
  induction list generalizing seen seen' with
  | nil => rfl
  | cons b rest ih =>
      have hcons : ∀ a, a ∈ b :: seen ↔ a ∈ b :: seen' := by simp [h]
      simp only [fresh, h b, ih h, ih hcons]

theorem fresh_append (seen list others : List α) :
    fresh seen (list ++ others) =
      fresh seen list ++ fresh (fresh seen list ++ seen) others := by
  induction list generalizing seen with
  | nil => rfl
  | cons b rest ih =>
      by_cases hb : b ∈ seen
      · simp [fresh, hb, ih]
      · have hsame : ∀ a, a ∈ fresh (b :: seen) rest ++ b :: seen ↔
            a ∈ b :: (fresh (b :: seen) rest ++ seen) := by
          simp [or_left_comm]
        simp [fresh, hb, ih, fresh_congr hsame]

theorem Drains.congr (h : Drains neighbours seen queue order)
    (hseen : ∀ a, a ∈ seen ↔ a ∈ seen') : Drains neighbours seen' queue order := by
  induction h generalizing seen' with
  | nil => exact .nil
  | @cons seen queue order a _ ih =>
      refine .cons ?_
      rw [← fresh_congr hseen]
      exact ih fun b => by simp [hseen]

theorem Drains.append (h : Drains neighbours (fresh seen (frontier.flatMap neighbours) ++ seen)
    (queue ++ fresh seen (frontier.flatMap neighbours)) order) :
    Drains neighbours seen (frontier ++ queue) (frontier ++ order) := by
  induction frontier generalizing seen queue with
  | nil => simpa using h
  | cons a rest ih =>
      rw [List.cons_append, List.cons_append]
      refine .cons ?_
      rw [List.append_assoc]
      apply ih
      rw [List.flatMap_cons, fresh_append, ← List.append_assoc] at h
      exact h.congr fun b => by simp only [List.mem_append]; tauto

theorem Drains.round (h : Drains neighbours (fresh seen (frontier.flatMap neighbours) ++ seen)
    (fresh seen (frontier.flatMap neighbours)) order) :
    Drains neighbours seen frontier (frontier ++ order) := by
  rw [← List.append_nil frontier, List.append_assoc]
  exact Drains.append (by simpa using h)

theorem drains_rounds (n : Nat)
    (h : rounds neighbours (n + 1) seen frontier = rounds neighbours n seen frontier) :
    Drains neighbours seen frontier (rounds neighbours n seen frontier) := by
  induction n generalizing seen frontier with
  | zero =>
      have hnone : fresh seen (frontier.flatMap neighbours) = [] := by
        simpa [rounds_succ] using h
      have hdrained : Drains neighbours seen frontier (frontier ++ []) := by
        refine .round ?_
        rw [hnone]
        exact .nil
      simpa using hdrained
  | succ n ih =>
      rw [rounds_succ neighbours (n + 1), rounds_succ neighbours n seen] at h
      rw [rounds_succ]
      exact .round (ih (List.append_cancel_left h))

/-- A search that is given a round for each place with neighbours visits what a queue
visits, in the same order, and the queue is drained. -/
theorem drains_within (neighbours : α → List α) (sources : List α)
    (hsources : ∀ a, neighbours a ≠ [] → a ∈ sources) {n : Nat} (hn : sources.length ≤ n)
    (a : α) : Drains neighbours [a] [a] (within neighbours n a) :=
  drains_rounds n (within_eq_of_le neighbours sources hsources hn (Nat.le_succ n) a)

end Search

end BisimPlay
