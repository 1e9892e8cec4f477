import BisimPlay.Tournament.Basic

/-!
# Turns in a tournament

A call on a game changes the game and then carries out the effects that the game
wants: notices are given, players are dismissed, a player is told that it is to move.
A scripted player acts right then, before the call that led to its turn has come
back, and its acts are calls of the same kind. Such calls nest only as deep as there
are script lines, because each prompt that is acted upon uses one up.

The functions that end in `By` take the way in which effects are carried out as an
argument; `carryOut` closes the circle.
-/

namespace BisimPlay

/-- A way to carry out the effects that a game wants. -/
abbrev Performer := GameId → List Effect → Tournament → Tournament

namespace Tournament

/-- Change a game and carry out what it wants. A fault changes nothing; a released
game is beyond change. -/
def changeBy (perform : Performer) (t : Tournament) (g : GameId)
    (change : Game → Except Fault (Game × List Effect)) :
    Except Fault Unit × Tournament :=
  match t.game? g with
  | none => (.ok (), t)
  | some game =>
    match change game with
    | .error fault => (.error fault, t)
    | .ok (next, effects) => (.ok (), perform g effects (t.setGame g next))

/-- Start a game. -/
def startBy (perform : Performer) (t : Tournament) (g : GameId) :
    Except Fault Unit × Tournament :=
  t.changeBy perform g Game.start

/-- Make a move. A move that is refused is remarked on. -/
def playBy (perform : Performer) (t : Tournament) (g : GameId) (role : Role)
    (move : Move) : Except Fault Unit × Tournament :=
  match t.changeBy perform g (·.play role move) with
  | (.error fault, t) =>
    (.error fault, t.tell
      ⟨.warn, "rejected " ++ role.text ++ " move: " ++ fault.message⟩)
  | (.ok (), t) => (.ok (), t)

/-- Stop a game. -/
def stopBy (perform : Performer) (t : Tournament) (g : GameId) : Tournament :=
  (t.changeBy perform g fun game => .ok game.stop).2

/-- Break a game off. -/
def abortBy (perform : Performer) (t : Tournament) (g : GameId) (fault : Fault) :
    Tournament :=
  (t.changeBy perform g fun game => .ok (game.abort fault)).2

/-- A scripted player acts in a game, given the choices it was told. -/
def actBy (perform : Performer) (p : PlayerId) (role : Role) (g : GameId)
    (choices : List Move) (t : Tournament) : Act → Tournament
  | .play position =>
    match choices[position % choices.length]? with
    | none => t
    | some move =>
      let (result, t) := t.playBy perform g role move
      t.note p (.acted (.answered result))
  | .playForOpponent =>
    match choices.head? with
    | none => t
    | some move =>
      let (result, t) := t.playBy perform g role.opponent move
      t.note p (.acted (.answered result))
  | .stop => (t.stopBy perform g).note p (.acted .stopped)
  | .abort => (t.abortBy perform g .noWinningDefence).note p (.acted .aborted)
  | .start =>
    let (result, t) := t.startBy perform g
    t.note p (.acted (.answered result))

/-- Tell a player that it is to move. A person keeps the choices in hand, an
automated player schedules its decision in place of any other, and a scripted player
acts by the next line of its script. -/
def promptBy (perform : Performer) (t : Tournament) (p : PlayerId) (g : GameId)
    (choices : List Move) : Tournament :=
  match t.player? p with
  | none => t
  | some player =>
    match player.conduct with
    | .human _ => t.modifyPlayer p (·.holding choices)
    | .automated delay source _ =>
      t.modifyPlayer p fun player =>
        { player with
          conduct := .automated delay source (some ⟨t.now + delay.toNat, g, choices⟩) }
    | .scripted script dismissals =>
      let t := t.note p (.prompted choices)
      match script with
      | [] => t
      | line :: rest =>
        let t := t.modifyPlayer p fun player =>
          { player with conduct := .scripted rest dismissals }
        line.foldl (actBy perform p player.role g choices) t

/-- Carry out one effect. -/
def effectBy (perform : Performer) (g : GameId) (t : Tournament) : Effect → Tournament
  | .tell notice => t.tell notice
  | .dismiss p => t.dismiss p
  | .prompt p choices => t.promptBy perform p g choices

/-- Carry out effects in order, where prompts may nest to a given depth. -/
def carryOut : Nat → Performer
  | 0, g, effects, t => effects.foldl (effectBy (fun _ _ t => t) g) t
  | depth + 1, g, effects, t => effects.foldl (effectBy (carryOut depth) g) t

/-- The way in which a tournament carries out effects: nested as deep as it has
script lines left. -/
def performer (t : Tournament) : Performer := carryOut t.scriptLines

/-- Seat two players in a game. -/
def seat (t : Tournament) (g : GameId) (attacker defender : PlayerId) :
    Except Fault Unit × Tournament :=
  match t.player? attacker, t.player? defender with
  | some first, some second =>
    t.changeBy t.performer g fun game =>
      (game.seat (attacker, first.role) (defender, second.role)).map fun game =>
        (game, [])
  | _, _ => (.error .missingPlayers, t)

/-- Start a game. -/
def start (t : Tournament) (g : GameId) : Except Fault Unit × Tournament :=
  t.startBy t.performer g

/-- Make a move for a role. -/
def play (t : Tournament) (g : GameId) (role : Role) (move : Move) :
    Except Fault Unit × Tournament :=
  t.playBy t.performer g role move

def stop (t : Tournament) (g : GameId) : Tournament := t.stopBy t.performer g

/-- Break a game off. -/
def abort (t : Tournament) (g : GameId) (fault : Fault) : Tournament :=
  t.abortBy t.performer g fault

/-- Tell a player that it is to move. -/
def prompt (t : Tournament) (p : PlayerId) (g : GameId) (choices : List Move) :
    Tournament :=
  t.promptBy t.performer p g choices

/-- Have a person play one of the choices in hand. The choices leave the hand before
the move is made, because the turn may come back with new ones right away; a fault
puts them back. -/
def choose (t : Tournament) (p : PlayerId) (index : Nat) (g : GameId) :
    Except Fault Unit × Tournament :=
  match t.player? p with
  | none => (.error (.noSuchChoice index), t)
  | some player =>
    match player.heldChoices[index]? with
    | none => (.error (.noSuchChoice index), t)
    | some move =>
      match (t.modifyPlayer p (·.holding [])).play g player.role move with
      | (.error fault, t) =>
        (.error fault, t.modifyPlayer p (·.holding player.heldChoices))
      | (.ok (), t) => (.ok (), t)

@[simp] theorem carryOut_nil (depth : Nat) (g : GameId) (t : Tournament) :
    carryOut depth g [] t = t := by
  cases depth <;> rfl

theorem changeBy_of_error (perform : Performer) (t : Tournament) (g : GameId)
    (change : Game → Except Fault (Game × List Effect)) (game : Game) (fault : Fault)
    (hgame : t.game? g = some game) (hchange : change game = .error fault) :
    t.changeBy perform g change = (.error fault, t) := by
  simp [changeBy, hgame, hchange]

end Tournament

end BisimPlay
