import BisimPlay.Process.Basic

/-!
# Deferred values

A function of processes may be slow and asked for the same process many times. Its
values at the first processes can be deferred: each is found when it is first asked
for, and kept from then on. A value that is never asked for costs nothing. The type
says that the deferred values are those of the function, so `value_eq` lets a reader
forget that they were deferred.
-/

namespace BisimPlay

/-- The values of a function at the first processes, each found when asked for. -/
structure Deferred {α : Type} (f : ProcessId → α) where
  cells : Array (Thunk α)
  get_cells : ∀ i cell, cells[i]? = some cell → cell.get = f (.ofIndex i)

namespace Deferred

variable {α : Type} {f : ProcessId → α}

/-- Defer the values at the first `n` processes, which another function with the same
values is to find. -/
def first (n : Nat) (find : ProcessId → α) (h : ∀ p, find p = f p) : Deferred f where
  cells := (Array.range n).map fun i => Thunk.mk fun _ => find (.ofIndex i)
  get_cells := by
    intro i cell hcell
    obtain ⟨j, hj, rfl⟩ := Option.map_eq_some_iff.1 (Array.getElem?_map ▸ hcell)
    obtain ⟨hi, rfl⟩ := Array.getElem?_eq_some_iff.1 hj
    simpa [Thunk.get] using h (.ofIndex i)

/-- The value at a process, deferred or not. -/
def value (deferred : Deferred f) (p : ProcessId) : α :=
  match deferred.cells[p.index]? with
  | some cell => cell.get
  | none => f p

@[simp] theorem value_eq (deferred : Deferred f) (p : ProcessId) :
    deferred.value p = f p := by
  unfold value
  split
  · next cell h => simpa using deferred.get_cells _ _ h
  · rfl

end Deferred

end BisimPlay
