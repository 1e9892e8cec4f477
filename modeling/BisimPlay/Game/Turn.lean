import BisimPlay.Move

/-!
# Turns

The turn of a game says where the game is and how it got there: its node, the number
of moves so far, the action of the last attack and the side of the last move. Moves
are counted by a 32-bit word. Two moves make a round, an attack and its defence, and
rounds are counted from one.

A defence is always played on the side opposite the attack, so the turn does not
look at the side of a defence but flips the side that it remembers.
-/

namespace BisimPlay

/-- Where a game is, and how it got there. -/
structure Turn where
  node : NodeId
  step : UInt32
  lastAction : Option Action
  lastSide : Option Side
deriving DecidableEq, Inhabited

namespace Turn

def first (root : NodeId) : Turn := ⟨root, 0, none, none⟩

def round (turn : Turn) : UInt32 := turn.step / 2 + 1

/-- The turn after a move of a role. -/
def advance (turn : Turn) (role : Role) (move : Move) : Turn :=
  match role with
  | .attacker => ⟨move.next, turn.step + 1, some move.action, some move.side⟩
  | .defender => ⟨move.next, turn.step + 1, turn.lastAction, turn.lastSide.map Side.flip⟩

/-- The turn after a list of moves. -/
def replay (turn : Turn) (plays : List (Role × Move)) : Turn :=
  plays.foldl (fun turn play => turn.advance play.1 play.2) turn

@[simp] theorem node_first (root : NodeId) : (first root).node = root := rfl

@[simp] theorem step_first (root : NodeId) : (first root).step = 0 := rfl

@[simp] theorem node_advance (turn : Turn) (role : Role) (move : Move) :
    (turn.advance role move).node = move.next := by
  cases role <;> rfl

@[simp] theorem step_advance (turn : Turn) (role : Role) (move : Move) :
    (turn.advance role move).step = turn.step + 1 := by
  cases role <;> rfl

@[simp] theorem replay_nil (turn : Turn) : turn.replay [] = turn := rfl

theorem replay_cons (turn : Turn) (role : Role) (move : Move)
    (plays : List (Role × Move)) :
    turn.replay ((role, move) :: plays) = (turn.advance role move).replay plays := rfl

theorem replay_append (turn : Turn) (plays later : List (Role × Move)) :
    turn.replay (plays ++ later) = (turn.replay plays).replay later := by
  simp [replay, List.foldl_append]

end Turn

end BisimPlay
