/-!
# Display colors

Players are told apart by a color. Two colors are in use, one for a first and one for
a second player; people take the first and computers the second.
-/

namespace BisimPlay

/-- The color of a player. -/
inductive Color
  | first
  | second
deriving DecidableEq, Inhabited

namespace Color

def human : Color := first

def computer : Color := second

/-- A color as red, green and blue in hexadecimal. -/
def hex : Color → String
  | first => "#e74c3c"
  | second => "#2980b9"

theorem hex_inj {a b : Color} : a.hex = b.hex ↔ a = b := by
  cases a <;> cases b <;> simp [hex]

end Color

end BisimPlay
