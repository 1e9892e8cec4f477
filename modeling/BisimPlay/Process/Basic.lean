import BisimPlay.Text.Decimal

/-!
# Processes and their actions

A process is known by a number, a 32-bit word that counts processes in the order in
which they were declared. A step of a process carries an action; the silent action
`tau` is the one that weak semantics absorbs, every other action is observable.
-/

namespace BisimPlay

/-- The number of a process. -/
structure ProcessId where
  word : UInt32
deriving DecidableEq, Hashable, Inhabited

namespace ProcessId

def index (p : ProcessId) : Nat := p.word.toNat

def ofIndex (i : Nat) : ProcessId := ⟨UInt32.ofNat i⟩

def text (p : ProcessId) : String := Decimal.render p.index

@[simp] theorem ofIndex_index (p : ProcessId) : ofIndex p.index = p := by
  simp [ofIndex, index]

theorem index_ofIndex (i : Nat) (h : i < 0x100000000) : (ofIndex i).index = i := by
  simpa [ofIndex, index, UInt32.toNat_ofNat] using Nat.mod_eq_of_lt h

theorem index_lt (p : ProcessId) : p.index < 0x100000000 := p.word.toNat_lt

theorem index_inj {p q : ProcessId} : p.index = q.index ↔ p = q := by
  constructor
  · intro h
    rw [← ofIndex_index p, ← ofIndex_index q, h]
  · rintro rfl
    rfl

end ProcessId

/-- The action of a step, known by its label. -/
structure Action where
  label : String
deriving DecidableEq, Hashable, Inhabited

namespace Action

def tau : Action := ⟨"tau"⟩

def isTau (a : Action) : Bool := a = tau

@[simp] theorem isTau_iff (a : Action) : a.isTau = true ↔ a = tau := by
  simp [isTau]

/-- Actions are ordered by their labels, code point by code point. -/
def compare (a b : Action) : Ordering :=
  if a.label < b.label then .lt else if a = b then .eq else .gt

end Action

/-- A step that a process may take: its action and the process it leads to. -/
structure Transition where
  action : Action
  target : ProcessId
deriving DecidableEq, Hashable, Inhabited

end BisimPlay
