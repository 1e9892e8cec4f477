/-!
# Decimal numerals

A natural number is written in decimal without leading zeros. Reading accepts any
nonempty string of digits, leading zeros included; a caller that forbids those
says so itself.
-/

namespace BisimPlay

namespace Decimal

def digits (n : Nat) : List Char := Nat.toDigits 10 n

def render (n : Nat) : String := String.ofList (digits n)

def digitValue (c : Char) : Nat := c.toNat - '0'.toNat

/-- The value that a run of digits adds to the value read so far. -/
def valueFrom (value : Nat) (text : List Char) : Nat :=
  text.foldl (fun value c => value * 10 + digitValue c) value

/-- The number that a text of decimal digits stands for; `none` when the text is
empty or holds anything else. Digits are the ASCII digits. -/
def read? (text : List Char) : Option Nat :=
  if text ≠ [] ∧ text.all Char.isDigit then some (valueFrom 0 text) else none

@[simp] theorem valueFrom_nil (value : Nat) : valueFrom value [] = value := rfl

theorem valueFrom_append (value : Nat) (first rest : List Char) :
    valueFrom value (first ++ rest) = valueFrom (valueFrom value first) rest := by
  simp [valueFrom, List.foldl_append]

@[simp] theorem read?_nil : read? [] = none := rfl

theorem valueFrom_eq_ofDigitChars (value : Nat) (text : List Char) :
    valueFrom value text = Nat.ofDigitChars 10 text value := by
  simp only [valueFrom, Nat.ofDigitChars, digitValue, Nat.mul_comm 10]

@[simp] theorem valueFrom_digits (n : Nat) : valueFrom 0 (digits n) = n := by
  rw [valueFrom_eq_ofDigitChars]
  exact Nat.ofDigitChars_toDigits (by decide) (by decide)

theorem isDigit_of_mem_digits {n : Nat} {c : Char} (h : c ∈ digits n) :
    c.isDigit = true :=
  Nat.isDigit_of_mem_toDigits (by decide) (by decide) h

theorem digits_ne_nil (n : Nat) : digits n ≠ [] := by
  intro h
  rw [digits, Nat.toDigits_eq_if (by decide)] at h
  split at h <;> simp at h

@[simp] theorem read?_digits (n : Nat) : read? (digits n) = some n := by
  rw [read?, if_pos, valueFrom_digits]
  exact ⟨digits_ne_nil n, List.all_eq_true.2 fun _ hc => isDigit_of_mem_digits hc⟩

end Decimal

end BisimPlay
