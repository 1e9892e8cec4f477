import BisimPlay.Role
import BisimPlay.Text.Decimal

/-!
# What can go wrong

A call that cannot be carried out reports a fault. A fault names its cause and what
the cause is about; the wording lives in one function. Losing a game for want of a
move is no fault, it ends the game in the regular way.
-/

namespace BisimPlay

/-- The cause of a failed call. -/
inductive Fault
  /-- Both seats were offered to players of one role. -/
  | duplicateRole (role : Role)
  /-- The seats were offered the wrong way round. -/
  | roleMismatch
  /-- A game needs both seats filled before it starts. -/
  | missingPlayers
  /-- The call needs a game without an open turn. -/
  | inProgress
  /-- A move came before the game started. -/
  | notStarted
  /-- A move came while the opponent held the turn. -/
  | outOfTurn (role : Role)
  /-- The move is not a choice of the role at the current node. -/
  | illegalMove (role : Role)
  /-- The game was stopped. -/
  | stopped
  /-- The game has ended. -/
  | gameOver
  /-- No process of the system has this name. -/
  | unknownProcess (name : String)
  /-- A player was asked for a choice that it does not hold. -/
  | noSuchChoice (index : Nat)
  /-- A strategy was asked to choose from nothing. -/
  | noChoices (role : Role)
  /-- Every answer of the defender loses. -/
  | noWinningDefence
  /-- A line of a listing has a number of words that no declaration has. -/
  | malformedLine (number : Nat) (text : String)
  /-- Text could not be fetched from outside; the reason is the outside's own. -/
  | unreadable (reason : String)
deriving DecidableEq, Inhabited

namespace Fault

/-- The wording of a fault. -/
def message : Fault → String
  | duplicateRole role => "cannot make game with two " ++ role.text ++ "s"
  | roleMismatch => "first player must be the attacker and second the defender"
  | missingPlayers => "no players in game"
  | inProgress => "game is already in progress"
  | notStarted => "game has not started"
  | outOfTurn role => role.text ++ " moved out of turn"
  | illegalMove role => "move is not among the " ++ role.text ++ "'s legal choices"
  | stopped => "game has been stopped"
  | gameOver => "game is over"
  | unknownProcess name => "unknown process '" ++ name ++ "'"
  | noSuchChoice index => "no choice with index " ++ Decimal.render index
  | noChoices role => "no choices for " ++ role.text
  | noWinningDefence => "no winning defender moves"
  | malformedLine number text =>
    "malformed line " ++ Decimal.render number ++ ": '" ++ text ++ "'"
  | unreadable reason => "I/O error: " ++ reason

/-- The fault lies in the call: it was made at the wrong time or about something
that does not exist. -/
def isMisuse : Fault → Bool
  | duplicateRole _ | roleMismatch | missingPlayers | inProgress | notStarted
  | outOfTurn _ | illegalMove _ | stopped | gameOver | unknownProcess _
  | noSuchChoice _ => true
  | noChoices _ | noWinningDefence | malformedLine _ _ | unreadable _ => false

/-- The fault lies in a strategy: it was asked for a move that the ranking of the
arena says does not exist. -/
def isStrategyFailure : Fault → Bool
  | noChoices _ | noWinningDefence => true
  | _ => false

theorem isStrategyFailure_eq_false_of_isMisuse (fault : Fault)
    (h : fault.isMisuse = true) : fault.isStrategyFailure = false := by
  cases fault <;> simp_all [isMisuse, isStrategyFailure]

end Fault

end BisimPlay
