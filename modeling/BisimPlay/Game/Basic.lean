import BisimPlay.Game.Phase
import BisimPlay.Game.Record
import BisimPlay.Game.Rules
import BisimPlay.Game.Turn

/-!
# Games

A game in progress: its rules, its phase and turn, who is seated, and its record.
Every change of phase is published, also one to an equal phase; the game counts its
publications, so that a watcher can tell whether it has missed one.

A game does not act on its players. What it wants done, it says in effects: a notice
to give, a player whose pending decision is to be dropped, a player to be told its
choices. They are listed in the order in which they are to be carried out.
-/

namespace BisimPlay

/-- The number of a player. -/
abbrev PlayerId := Nat

/-- The number of a game. -/
abbrev GameId := Nat

/-- What a game wants done. -/
inductive Effect
  /-- Give a notice. -/
  | tell (notice : Notice)
  /-- Have a player drop its pending decision. -/
  | dismiss (player : PlayerId)
  /-- Tell a player that it is to move, and its choices. -/
  | prompt (player : PlayerId) (choices : List Move)
deriving DecidableEq, Inhabited

/-- A game in progress. -/
structure Game where
  rules : Rules
  phase : Phase
  turn : Turn
  stopped : Bool
  attacker : Option PlayerId
  defender : Option PlayerId
  record : Record
  publications : Nat

namespace Game

/-- A game that has not started and has no players. -/
def new (rules : Rules) (echo : Bool) : Game where
  rules := rules
  phase := .unstarted
  turn := .first rules.root
  stopped := false
  attacker := none
  defender := none
  record := .blank echo
  publications := 0

/-- The player seated for a role. -/
def seated (game : Game) : Role → Option PlayerId
  | .attacker => game.attacker
  | .defender => game.defender

/-- The legal moves of a role at the current node. -/
def choices (game : Game) (role : Role) : List Move :=
  game.rules.choices game.turn.node role

/-- Enter a phase and publish it. -/
def enter (game : Game) (phase : Phase) : Game :=
  { game with phase, publications := game.publications + 1 }

/-- Write an entry down, with the remarks on it. -/
def write (game : Game) (entry : Entry) : Game × List Effect :=
  ({ game with record := game.record.add entry },
    (game.record.remarks entry).map Effect.tell)

/-- Have all seated players drop their decisions, the attacker first. -/
def dismissals (game : Game) : List Effect :=
  game.attacker.toList.map Effect.dismiss ++ game.defender.toList.map Effect.dismiss

@[simp] theorem phase_enter (game : Game) (phase : Phase) :
    (game.enter phase).phase = phase := rfl

@[simp] theorem turn_enter (game : Game) (phase : Phase) :
    (game.enter phase).turn = game.turn := rfl

@[simp] theorem record_enter (game : Game) (phase : Phase) :
    (game.enter phase).record = game.record := rfl

@[simp] theorem record_write (game : Game) (entry : Entry) :
    (game.write entry).1.record = game.record.add entry := rfl

@[simp] theorem phase_write (game : Game) (entry : Entry) :
    (game.write entry).1.phase = game.phase := rfl

end Game

end BisimPlay
