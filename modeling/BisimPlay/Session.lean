import BisimPlay.Contest
import BisimPlay.Process.Explore
import BisimPlay.Settings
import BisimPlay.Tournament.Clock

/-!
# Sessions

A session plays games between automated players on one transition system, and at
most one game is live at a time. A new game always stops the one before it, also
when the new game cannot be made. Both players of a game take their random choices
from forks of the session's own source, first the defender and then the attacker.
-/

namespace BisimPlay

/-- A session over one transition system. -/
structure Session where
  lts : TransitionSystem
  settings : Settings
  source : RandomSource
  tournament : Tournament
  current : Option GameId

/-- A game that a session has made: its number and its contest. -/
structure LiveGame where
  game : GameId
  contest : Contest

namespace Session

def exploreLimit : Nat := 1000

/-- Open a session. Without a seed in the settings, the random choices start from the
seed given beside them. -/
def new (lts : TransitionSystem) (settings : Settings) (otherSeed : UInt64) : Session where
  lts := lts
  settings := settings
  source := .ofSeed (settings.seed.getD otherSeed)
  tournament := .empty
  current := none

/-- The pair of processes that is offered in the absence of another: the process
declared last against the one before it, or against itself when it is the only
one. -/
def defaultPair (session : Session) : Option (String × String) :=
  match session.lts.names.reverse with
  | [] => none
  | [only] => some (only, only)
  | last :: previous :: _ => some (last, previous)

/-- What can be reached from a process, under the semantics of the defender. -/
def explore (session : Session) (name : String) : Except Fault (List Reached) :=
  match session.lts.resolve name with
  | .error fault => .error fault
  | .ok p => .ok (session.lts.explore session.settings.semantics p exploreLimit)

/-- Stop the live game, if there is one, and let go of it. -/
def hide (session : Session) : Session :=
  match session.current with
  | none => session
  | some g =>
    { session with tournament := session.tournament.stop g, current := none }

/-- The contest of two named processes: strong attacks, and answers under the
semantics of the settings. -/
def contest (session : Session) (left right : String) : Except Fault Contest :=
  Contest.ofNames session.lts .strong session.settings.semantics left right

/-- The notice that announces a game. -/
def announcement (session : Session) (left right : String) (contest : Contest) :
    Notice :=
  ⟨.info, "new " ++ session.settings.semantics.text ++ " game: " ++ left ++ " vs " ++
    right ++ " (" ++ (if contest.isBisimilar then "bisimilar" else "not bisimilar") ++
    ")"⟩

/-- Set up the game of a contest: add the game and its two players and seat them. -/
def setUp (session : Session) (contest : Contest) : GameId × Session :=
  let (defence, source) := session.source.fork
  let (attack, source) := source.fork
  let delay := session.settings.thinkingDelay
  let (g, t) :=
    session.tournament.addGame (.new contest.rules session.settings.echo)
  let (defender, t) := t.addPlayer (.automated .defender .first delay defence)
  let (attacker, t) := t.addPlayer (.automated .attacker .second delay attack)
  (g, { session with source, tournament := (t.seat g attacker defender).2 })

/-- Stop the live game, then make and start a game of two named processes. A name
without a process is a fault; the game before is stopped all the same, and nothing
is forked. -/
def newGame (session : Session) (left right : String) :
    Except Fault LiveGame × Session :=
  let session := session.hide
  match session.contest left right with
  | .error fault => (.error fault, session)
  | .ok contest =>
    let session :=
      { session with
        tournament := session.tournament.tell (session.announcement left right contest) }
    let (g, session) := session.setUp contest
    (.ok ⟨g, contest⟩,
      { session with tournament := (session.tournament.start g).2, current := some g })

/-- Change the tournament of a session. -/
def withTournament (session : Session) (tournament : Tournament) : Session :=
  { session with tournament }

/-- Move the clock on. -/
def advance (session : Session) (duration : Nat) : Session :=
  session.withTournament (session.tournament.advance duration)

@[simp] theorem current_hide (session : Session) : session.hide.current = none := by
  unfold hide
  split
  · assumption
  · rfl

@[simp] theorem source_hide (session : Session) : session.hide.source = session.source := by
  unfold hide
  split <;> rfl

theorem current_newGame_of_error (session : Session) (left right : String)
    (fault : Fault) (h : session.hide.contest left right = .error fault) :
    session.newGame left right = (.error fault, session.hide) := by
  simp [newGame, h]

end Session

end BisimPlay
