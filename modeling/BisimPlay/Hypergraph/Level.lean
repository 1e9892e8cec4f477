import BisimPlay.Text.Decimal

/-!
# Levels

The level of a node says in which round of the ranking the attacker was seen to win
from it. Levels are 32-bit words; the largest word stands for infinity, the level
of the nodes from which the attacker never wins.
-/

namespace BisimPlay

/-- The rank of a node. -/
structure Level where
  word : UInt32
deriving DecidableEq, Inhabited

namespace Level

def infinity : Level := ⟨0xFFFFFFFF⟩

def ofRound (k : Nat) : Level := ⟨UInt32.ofNat k⟩

def isFinite (level : Level) : Bool := level ≠ infinity

instance : LT Level := ⟨fun a b => a.word < b.word⟩

instance (a b : Level) : Decidable (a < b) :=
  inferInstanceAs (Decidable (a.word < b.word))

def text (level : Level) : String :=
  if level.isFinite then Decimal.render level.word.toNat else "inf"

theorem lt_iff_toNat_lt (a b : Level) : a < b ↔ a.word.toNat < b.word.toNat :=
  UInt32.lt_iff_toNat_lt

@[simp] theorem isFinite_iff (level : Level) : level.isFinite = true ↔ level ≠ infinity := by
  simp [isFinite]

theorem not_infinity_lt (level : Level) : ¬ infinity < level := by
  have h := level.word.toNat_lt
  rw [lt_iff_toNat_lt]
  simp only [infinity, UInt32.toNat_ofNat]
  omega

end Level

/-- Who wins from a node. -/
inductive Marking
  /-- The defender wins. -/
  | zero
  /-- The attacker wins. -/
  | one
deriving DecidableEq, Inhabited

end BisimPlay
