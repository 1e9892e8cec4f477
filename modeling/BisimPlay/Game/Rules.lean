import BisimPlay.Fault
import BisimPlay.Move
import BisimPlay.Notice

/-!
# Rules of a game

A game is played over nodes. Its rules say where play starts, which moves a role has
at a node, who wins when both play well, and how the winner should choose. A role
without moves loses. All of this is fixed before the first move.
-/

namespace BisimPlay

/-- The rules of a game. -/
structure Rules where
  /-- The node at which play starts. -/
  root : NodeId
  /-- The legal moves of a role at a node, in a fixed order. -/
  choices : NodeId → Role → List Move
  /-- The role that wins from the root when it plays well. -/
  winner : Role
  /-- The attacker's choice from a list, for a game that it wins. -/
  attack : NodeId → List Move → Except Fault Move
  /-- What there is to remark on the attacker's choice from a list. -/
  attackNotices : NodeId → List Move → List Notice
  /-- The defender's choice from a list, for a game that it wins. -/
  defence : NodeId → List Move → Except Fault Move
  /-- How a process is shown. -/
  label : ProcessId → String

namespace Rules

def claiming (rules : Rules) (role : Role) : Rules := { rules with winner := role }

@[simp] theorem winner_claiming (rules : Rules) (role : Role) :
    (rules.claiming role).winner = role := rfl

@[simp] theorem choices_claiming (rules : Rules) (role : Role) :
    (rules.claiming role).choices = rules.choices := rfl

end Rules

end BisimPlay
