/-!
# Blank characters

A character is blank when it has the Unicode property `White_Space`. The property
is a fixed table of code points, given here as ranges; it is wider than the class
of core's `Char.isWhitespace`, which knows a few ASCII characters only.
-/

namespace BisimPlay

namespace Text

/-- The code points of the property `White_Space`, as closed ranges in increasing
order: the ASCII controls from tab to carriage return, the space, the next-line
control, the no-break space, and the spaces and separators of the later blocks. -/
def blankRanges : List (Nat × Nat) :=
  [(0x09, 0x0D), (0x20, 0x20), (0x85, 0x85), (0xA0, 0xA0), (0x1680, 0x1680),
    (0x2000, 0x200A), (0x2028, 0x2029), (0x202F, 0x202F), (0x205F, 0x205F),
    (0x3000, 0x3000)]

/-- A character is blank when its code point lies in one of the ranges. -/
def isBlank (c : Char) : Bool :=
  blankRanges.any fun range => range.1 ≤ c.toNat && c.toNat ≤ range.2

theorem isBlank_of_isWhitespace (c : Char) (h : c.isWhitespace = true) :
    isBlank c = true := by
  have hc : c = ' ' ∨ c = '\t' ∨ c = '\r' ∨ c = '\n' := by
    simpa [Char.isWhitespace, or_assoc] using h
  rcases hc with rfl | rfl | rfl | rfl <;> decide

end Text

end BisimPlay
