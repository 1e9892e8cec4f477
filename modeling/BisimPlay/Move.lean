import BisimPlay.Hypergraph.Basic
import BisimPlay.Process.Basic
import BisimPlay.Role

/-!
# Moves

A move takes a step on one side of the compared pair and leads the game to another
node.
-/

namespace BisimPlay

/-- A move: the process it leads to, the node it leads to, the action of the step
and the side on which the step was taken. -/
structure Move where
  target : ProcessId
  next : NodeId
  action : Action
  side : Side
deriving DecidableEq, Inhabited

def Move.text (move : Move) : String :=
  move.side.text ++ " --" ++ move.action.label ++ "--> " ++ move.target.text ++
    " (" ++ move.next.text ++ ")"

end BisimPlay
