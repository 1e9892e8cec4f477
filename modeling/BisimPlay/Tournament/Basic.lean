import BisimPlay.Game.Referee
import BisimPlay.Player.Strategy

/-!
# Tournaments

A tournament holds games and players that share one clock. A player may be seated in
several games, at the same time or one after the other. A game can be released; its
number then stands for no game, and decisions still pending for it come to nothing.
Of a released game only its last phase is kept, for those who have watched it.

Notices accumulate in the order in which they are given. What scripted players do and
are told is kept in a diary.
-/

namespace BisimPlay

/-- What an act came to. -/
inductive ActResult
  /-- A move or a start was allowed or not. -/
  | answered (result : Except Fault Unit)
  /-- The game was stopped. -/
  | stopped
  /-- The game was broken off. -/
  | aborted

/-- An event in the diary of scripted players. -/
inductive Event
  /-- The player was told to move. -/
  | prompted (choices : List Move)
  /-- The player has acted. -/
  | acted (result : ActResult)
  /-- The player was dismissed. -/
  | dismissed

/-- What stands under the number of a game. -/
inductive Slot
  /-- The game. -/
  | held (game : Game)
  /-- The last phase of a game that was released. -/
  | released (last : Phase)

namespace Slot

/-- The game of a slot, unless it was released. -/
def game? : Slot → Option Game
  | held game => some game
  | released _ => none

/-- The phase of a slot, which is the last one of a released game. -/
def phase : Slot → Phase
  | held game => game.phase
  | released last => last

def release (slot : Slot) : Slot := released slot.phase

end Slot

/-- Games and players that share a clock. -/
structure Tournament where
  now : Nat
  games : Array Slot
  players : Array Player
  notices : Array Notice
  diary : Array (PlayerId × Event)

namespace Tournament

def empty : Tournament := ⟨0, #[], #[], #[], #[]⟩

/-- Add a game. -/
def addGame (t : Tournament) (game : Game) : GameId × Tournament :=
  (t.games.size, { t with games := t.games.push (.held game) })

/-- Add a player. -/
def addPlayer (t : Tournament) (player : Player) : PlayerId × Tournament :=
  (t.players.size, { t with players := t.players.push player })

def game? (t : Tournament) (g : GameId) : Option Game := t.games[g]?.bind Slot.game?

def player? (t : Tournament) (p : PlayerId) : Option Player := t.players[p]?

/-- Put a game in the place of another. -/
def setGame (t : Tournament) (g : GameId) (game : Game) : Tournament :=
  { t with games := t.games.setIfInBounds g (.held game) }

/-- Change a player. -/
def modifyPlayer (t : Tournament) (p : PlayerId) (change : Player → Player) :
    Tournament :=
  { t with players := t.players.modify p change }

/-- Release a game. -/
def release (t : Tournament) (g : GameId) : Tournament :=
  { t with games := t.games.modify g Slot.release }

/-- Give a notice. -/
def tell (t : Tournament) (notice : Notice) : Tournament :=
  { t with notices := t.notices.push notice }

/-- Note an event in the diary. -/
def note (t : Tournament) (p : PlayerId) (event : Event) : Tournament :=
  { t with diary := t.diary.push (p, event) }

/-- How many script lines are left in all. -/
def scriptLines (t : Tournament) : Nat :=
  -- The zero is given, so that it does not depend on which structures of `Nat` are in scope.
  @List.sum Nat _ ⟨0⟩ (t.players.toList.map Player.scriptLength)

/-- Have a player drop its pending decision. A person has none to drop; a scripted
player counts the dismissal. -/
def dismiss (t : Tournament) (p : PlayerId) : Tournament :=
  match t.player? p with
  | none => t
  | some player =>
    match player.conduct with
    | .human _ => t
    | .automated _ _ _ => t.modifyPlayer p Player.withoutDecision
    | .scripted script dismissals =>
      (t.modifyPlayer p fun player =>
        { player with conduct := .scripted script (dismissals + 1) }).note p .dismissed

@[simp] theorem game?_setGame (t : Tournament) (g : GameId) (game : Game)
    (h : g < t.games.size) : (t.setGame g game).game? g = some game := by
  simp [setGame, game?, Slot.game?, h]

theorem game?_setGame_ne (t : Tournament) (g other : GameId) (game : Game)
    (h : g ≠ other) : (t.setGame g game).game? other = t.game? other := by
  simp [setGame, game?, Array.getElem?_setIfInBounds_ne h]

@[simp] theorem game?_tell (t : Tournament) (notice : Notice) (g : GameId) :
    (t.tell notice).game? g = t.game? g := rfl

@[simp] theorem player?_tell (t : Tournament) (notice : Notice) (p : PlayerId) :
    (t.tell notice).player? p = t.player? p := rfl

@[simp] theorem player?_setGame (t : Tournament) (g : GameId) (game : Game)
    (p : PlayerId) : (t.setGame g game).player? p = t.player? p := rfl

@[simp] theorem game?_release (t : Tournament) (g : GameId) :
    (t.release g).game? g = none := by
  rw [game?, release, Array.getElem?_modify, if_pos rfl]
  cases t.games[g]? with
  | none => rfl
  | some slot => rfl

end Tournament

end BisimPlay
