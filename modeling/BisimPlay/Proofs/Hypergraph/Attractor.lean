import BisimPlay.Hypergraph.Basic
import Mathlib.Data.Finset.Card

/-!
# Won nodes and traps

`IsWonWithin g k n` says that the attacker wins from the node `n` within `k` rounds:
some hyperedge of `n` has only targets that are won within one round less. The won
nodes grow with the rounds and stop growing after at most as many rounds as there are
nodes, so what is won at all is won within `g.size` rounds.

A trap is the other side of it: a set of nodes in which every hyperedge of a member
has a target again. A node is never won exactly when it lies in a trap.
-/

namespace BisimPlay

namespace Hypergraph

variable {g : Hypergraph} {n : NodeId} {j k : Nat}

/-- The attacker wins from a node within a number of rounds. -/
def IsWonWithin (g : Hypergraph) : Nat → NodeId → Prop
  | 0, _ => False
  | k + 1, n => ∃ edge ∈ g.hyperedges n, ∀ target ∈ edge, g.IsWonWithin k target

@[simp] theorem not_isWonWithin_zero (g : Hypergraph) (n : NodeId) :
    ¬ g.IsWonWithin 0 n := id

theorem isWonWithin_succ (g : Hypergraph) (k : Nat) (n : NodeId) :
    g.IsWonWithin (k + 1) n ↔
      ∃ edge ∈ g.hyperedges n, ∀ target ∈ edge, g.IsWonWithin k target :=
  Iff.rfl

theorem IsWonWithin.succ (h : g.IsWonWithin k n) : g.IsWonWithin (k + 1) n := by
  induction k generalizing n with
  | zero => exact absurd h (g.not_isWonWithin_zero n)
  | succ k ih =>
      obtain ⟨edge, hedge, htargets⟩ := h
      exact ⟨edge, hedge, fun target ht => ih (htargets target ht)⟩

theorem IsWonWithin.mono (h : g.IsWonWithin j n) (hjk : j ≤ k) : g.IsWonWithin k n := by
  induction hjk with
  | refl => exact h
  | step _ ih => exact ih.succ

theorem IsWonWithin.index_lt (h : g.IsWonWithin k n) : n.index < g.size := by
  cases k with
  | zero => exact absurd h (g.not_isWonWithin_zero n)
  | succ k =>
      obtain ⟨edge, hedge, _⟩ := h
      by_contra hn
      rw [g.hyperedges_of_size_le n (Nat.le_of_not_lt hn)] at hedge
      exact absurd hedge List.not_mem_nil

def IsStableAt (g : Hypergraph) (k : Nat) : Prop :=
  ∀ n, g.IsWonWithin (k + 1) n → g.IsWonWithin k n

theorem IsStableAt.isWonWithin (hk : g.IsStableAt k) (h : g.IsWonWithin j n) :
    g.IsWonWithin k n := by
  induction j generalizing n with
  | zero => exact absurd h (g.not_isWonWithin_zero n)
  | succ j ih =>
      obtain ⟨edge, hedge, htargets⟩ := h
      exact hk n ⟨edge, hedge, fun target ht => ih (htargets target ht)⟩

open Classical in
noncomputable def wonPlaces (g : Hypergraph) (k : Nat) : Finset Nat :=
  (Finset.range g.size).filter fun i => g.IsWonWithin k (.ofIndex i)

theorem mem_wonPlaces (g : Hypergraph) (k i : Nat) :
    i ∈ g.wonPlaces k ↔ i < g.size ∧ g.IsWonWithin k (.ofIndex i) := by
  simp [wonPlaces]

theorem card_wonPlaces_le (g : Hypergraph) (k : Nat) : (g.wonPlaces k).card ≤ g.size := by
  classical
  calc (g.wonPlaces k).card ≤ (Finset.range g.size).card := Finset.card_filter_le _ _
    _ = g.size := Finset.card_range g.size

/-- As long as the won nodes grow, each round wins another place. -/
theorem card_wonPlaces_lt (h : ¬ g.IsStableAt k) :
    (g.wonPlaces k).card < (g.wonPlaces (k + 1)).card := by
  apply Finset.card_lt_card
  rw [Finset.ssubset_iff_of_subset]
  · simp only [IsStableAt, not_forall] at h
    obtain ⟨n, hwon, hnew⟩ := h
    refine ⟨n.index, ?_, ?_⟩
    · rw [mem_wonPlaces, NodeId.ofIndex_index]
      exact ⟨hwon.index_lt, hwon⟩
    · rw [mem_wonPlaces, NodeId.ofIndex_index]
      exact fun h => hnew h.2
  · intro i hi
    rw [mem_wonPlaces] at hi ⊢
    exact ⟨hi.1, hi.2.succ⟩

theorem le_card_wonPlaces (h : ∀ j < k, ¬ g.IsStableAt j) : k ≤ (g.wonPlaces k).card := by
  induction k with
  | zero => exact Nat.zero_le _
  | succ k ih =>
      have hlt := card_wonPlaces_lt (h k (Nat.lt_succ_self k))
      have hle := ih fun j hj => h j (Nat.lt_succ_of_lt hj)
      omega

theorem exists_isStableAt (g : Hypergraph) : ∃ k ≤ g.size, g.IsStableAt k := by
  by_contra hnone
  push Not at hnone
  have hgrow := le_card_wonPlaces (k := g.size + 1) fun j hj => hnone j (by omega)
  have hsize := g.card_wonPlaces_le (g.size + 1)
  omega

/-- What is won at all is won within as many rounds as there are nodes. -/
theorem IsWonWithin.size (h : g.IsWonWithin k n) : g.IsWonWithin g.size n := by
  obtain ⟨j, hj, hstable⟩ := g.exists_isStableAt
  exact (hstable.isWonWithin h).mono hj

/-- A trap: every hyperedge of a member has a target that is a member again. -/
def IsTrap (g : Hypergraph) (inside : NodeId → Prop) : Prop :=
  ∀ n, inside n → ∀ edge ∈ g.hyperedges n, ∃ target ∈ edge, inside target

theorem IsTrap.not_isWonWithin {inside : NodeId → Prop} (htrap : g.IsTrap inside)
    (hn : inside n) (k : Nat) : ¬ g.IsWonWithin k n := by
  induction k generalizing n with
  | zero => exact g.not_isWonWithin_zero n
  | succ k ih =>
      rintro ⟨edge, hedge, htargets⟩
      obtain ⟨target, ht, htarget⟩ := htrap n hn edge hedge
      exact ih htarget (htargets target ht)

theorem isTrap_never_won (g : Hypergraph) : g.IsTrap fun n => ∀ k, ¬ g.IsWonWithin k n := by
  intro n hn edge hedge
  by_contra hnone
  push Not at hnone
  refine hn (g.size + 1) ⟨edge, hedge, fun target ht => ?_⟩
  obtain ⟨k, hk⟩ := hnone target ht
  exact hk.size

end Hypergraph

end BisimPlay
