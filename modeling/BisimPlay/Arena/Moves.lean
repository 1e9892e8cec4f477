import BisimPlay.Arena.Layout
import BisimPlay.Move

/-!
# Moves in an arena

The attacker moves at pairs, the defender at attacks. The moves of a role at a node
follow the hyperedges of the node in order: each target is one move. An attack is
taken on its own side, an answer on the side opposite the attack and with the
attack's action.
-/

namespace BisimPlay

namespace Arena

/-- The move by which the attacker enters a node, if the node is an attack. -/
def attack? (arena : Arena) (n : NodeId) : Option Move :=
  match arena.position? n with
  | some (.leftAttack step _) => some ⟨step.target, n, step.action, .left⟩
  | some (.rightAttack _ step) => some ⟨step.target, n, step.action, .right⟩
  | _ => none

/-- The move by which the defender enters a node when it answers an action on a
side, if the node is a pair. -/
def answer? (arena : Arena) (action : Action) (side : Side) (n : NodeId) :
    Option Move :=
  match arena.position? n, side with
  | some (.pair left _), .left => some ⟨left, n, action, .left⟩
  | some (.pair _ right), .right => some ⟨right, n, action, .right⟩
  | _, _ => none

/-- The attacker's moves at a node, none unless the node is a pair. -/
def attackerMoves (arena : Arena) (n : NodeId) : List Move :=
  match arena.position? n with
  | some (.pair _ _) => (arena.hyperedges n).flatten.filterMap arena.attack?
  | _ => []

/-- The defender's moves at a node, none unless the node is an attack. -/
def defenderMoves (arena : Arena) (n : NodeId) : List Move :=
  match arena.position? n with
  | some (.leftAttack step _) =>
    (arena.hyperedges n).flatten.filterMap (arena.answer? step.action .right)
  | some (.rightAttack _ step) =>
    (arena.hyperedges n).flatten.filterMap (arena.answer? step.action .left)
  | _ => []

/-- The moves of a role at a node. -/
def moves (arena : Arena) (n : NodeId) : Role → List Move
  | .attacker => arena.attackerMoves n
  | .defender => arena.defenderMoves n

theorem attackerMoves_eq_nil (arena : Arena) (n : NodeId)
    (h : ∀ left right, arena.position? n ≠ some (.pair left right)) :
    arena.attackerMoves n = [] := by
  unfold attackerMoves
  split
  · next left right hpair => exact absurd hpair (h left right)
  · rfl

theorem defenderMoves_of_pair (arena : Arena) (n : NodeId) (left right : ProcessId)
    (h : arena.position? n = some (.pair left right)) :
    arena.defenderMoves n = [] := by
  simp [defenderMoves, h]

end Arena

end BisimPlay
