import BisimPlay.Player.Basic

/-!
# How automated players decide

A player of the role that wins the game follows the rules' own strategy for that
role. A player of the other role has nothing to gain from thinking and chooses at
random.
-/

namespace BisimPlay

/-- What a decision comes to: a move or a fault, the source after it, and the remarks
made on the way. -/
structure Verdict where
  move : Except Fault Move
  source : RandomSource
  notices : List Notice

/-- The verdict of an automated player of a role at a node. Only a random choice
draws from the source. -/
def Rules.verdict (rules : Rules) (node : NodeId) (role : Role) (choices : List Move)
    (source : RandomSource) : Verdict :=
  if rules.winner = role then
    match role with
    | .attacker =>
      ⟨rules.attack node choices, source, rules.attackNotices node choices⟩
    | .defender => ⟨rules.defence node choices, source, []⟩
  else
    match source.choose choices with
    | (some move, source) => ⟨.ok move, source, []⟩
    | (none, source) => ⟨.error (.noChoices role), source, []⟩

end BisimPlay
