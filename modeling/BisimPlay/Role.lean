/-!
# Roles and sides

Two players meet in a bisimulation game. The attacker tries to exhibit a step that
the other process cannot match; the defender tries to match every step. The two
processes compared are the left and the right one.
-/

namespace BisimPlay

/-- The two roles of the game. -/
inductive Role
  | attacker
  | defender
deriving DecidableEq, Inhabited

namespace Role

/-- The other role. -/
def opponent : Role → Role
  | attacker => defender
  | defender => attacker

def text : Role → String
  | attacker => "ATTACKER"
  | defender => "DEFENDER"

@[simp] theorem opponent_opponent (role : Role) : role.opponent.opponent = role := by
  cases role <;> rfl

theorem opponent_ne (role : Role) : role.opponent ≠ role := by
  cases role <;> decide

theorem eq_opponent_of_ne {first second : Role} (h : second ≠ first) :
    second = first.opponent := by
  cases first <;> cases second <;> simp_all [opponent]

end Role

/-- The two processes of a compared pair. -/
inductive Side
  | left
  | right
deriving DecidableEq, Inhabited

namespace Side

/-- The other side. -/
def flip : Side → Side
  | left => right
  | right => left

def text : Side → String
  | left => "left"
  | right => "right"

@[simp] theorem flip_flip (side : Side) : side.flip.flip = side := by
  cases side <;> rfl

theorem flip_ne (side : Side) : side.flip ≠ side := by
  cases side <;> decide

end Side

end BisimPlay
