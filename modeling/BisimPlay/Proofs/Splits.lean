import Mathlib.Data.List.Basic

/-!
# Splits of a list

What holds of an element and of those before it is said of the splits of a list at an element.
A list with one more element, at its end or at its beginning, has the splits of the rest and one
more.
-/

namespace BisimPlay

theorem split_append_singleton {α : Type} {xs before after : List α} {x y : α}
    (h : xs ++ [x] = before ++ y :: after) :
    (before = xs ∧ y = x) ∨ ∃ rest, xs = before ++ y :: rest := by
  rcases List.eq_nil_or_concat' after with rfl | ⟨rest, last, rfl⟩
  · obtain ⟨hxs, hx⟩ := List.append_singleton_inj.1 h
    exact .inl ⟨hxs.symm, hx.symm⟩
  · rw [← List.cons_append, ← List.append_assoc] at h
    exact .inr ⟨rest, (List.append_singleton_inj.1 h).1⟩

theorem exists_split_cons_iff {α : Type} {first : α} {rest : List α} {p : List α → α → Prop} :
    (∃ before x after, first :: rest = before ++ x :: after ∧ p before x) ↔
      p [] first ∨ ∃ before x after, rest = before ++ x :: after ∧ p (first :: before) x := by
  constructor
  · rintro ⟨_ | ⟨head, before⟩, x, after, heq, hp⟩
    · obtain ⟨rfl, -⟩ := List.cons.inj heq
      exact .inl hp
    · obtain ⟨rfl, hrest⟩ := List.cons.inj heq
      exact .inr ⟨before, x, after, hrest, hp⟩
  · rintro (hp | ⟨before, x, after, rfl, hp⟩)
    · exact ⟨[], first, rest, rfl, hp⟩
    · exact ⟨first :: before, x, after, rfl, hp⟩

end BisimPlay
