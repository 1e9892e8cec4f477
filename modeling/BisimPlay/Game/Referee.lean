import BisimPlay.Game.Basic

/-!
# The protocol of turns

How a game changes: players are seated, the game starts, moves are made, the game is
stopped or broken off. A change that is not allowed reports a fault and there is no
new game; one that is allowed gives the new game and the effects it wants.

A game ends when the role that receives the turn has no move. A stopped game refuses
everything from then on. A game that is not stopped may be started again once no
turn is open, and then begins afresh.
-/

namespace BisimPlay

namespace Game

/-- Give the turn to a role, or end the game when that role has no move. -/
def handOver (game : Game) (next : Role) : Game × List Effect :=
  match game.choices next with
  | [] =>
    let (recorded, remarks) := game.write (.winner next.opponent)
    (recorded.enter (.finished next.opponent),
      .tell ⟨.info, next.opponent.text ++ " wins after " ++
        Decimal.render game.turn.step.toNat ++ " moves"⟩ ::
        (remarks ++ game.dismissals))
  | choices =>
    (game.enter (.toMove next),
      (game.seated next).toList.map fun player => .prompt player choices)

/-- Seat two players, given with their roles. The roles are looked at before the
state of the game. -/
def seat (game : Game) (attacker defender : PlayerId × Role) : Except Fault Game :=
  if attacker.2 = defender.2 then .error (.duplicateRole attacker.2)
  else if attacker.2 ≠ .attacker then .error .roleMismatch
  else if game.stopped then .error .stopped
  else if game.phase.toMove?.isSome then .error .inProgress
  else .ok { game with attacker := some attacker.1, defender := some defender.1 }

/-- Start a game from the root, with a blank record. The attacker moves first. -/
def start (game : Game) : Except Fault (Game × List Effect) :=
  if game.stopped then .error .stopped
  else if game.phase.toMove?.isSome then .error .inProgress
  else if game.attacker.isNone ∨ game.defender.isNone then .error .missingPlayers
  else
    let fresh :=
      { game with turn := .first game.rules.root, record := game.record.clear }
    let (next, effects) := fresh.handOver .attacker
    .ok (next,
      .tell ⟨.info, "starting game at " ++ fresh.turn.node.text⟩ :: effects)

/-- The fault of a move that a role makes out of its turn. -/
def turnFault? (game : Game) (role : Role) : Option Fault :=
  if game.stopped then some .stopped
  else
    match game.phase with
    | .toMove holder => if holder = role then none else some (.outOfTurn role)
    | .unstarted => some .notStarted
    | .finished _ | .aborted _ => some .gameOver

/-- Make an accepted move: the turn advances, the move is written down, under a new
round if it is an attack, and the opponent receives the turn. -/
def accept (game : Game) (role : Role) (move : Move) : Game × List Effect :=
  let moved := { game with turn := game.turn.advance role move }
  let (opened, heading) :=
    match role with
    | .attacker => moved.write (.round moved.turn.round)
    | .defender => (moved, [])
  let (written, remarks) :=
    opened.write (.play role move (game.rules.label move.target))
  let (next, effects) := written.handOver role.opponent
  (next, heading ++ remarks ++ effects)

/-- Make a move for a role, provided that it holds the turn and the move is one of
its choices. -/
def play (game : Game) (role : Role) (move : Move) :
    Except Fault (Game × List Effect) :=
  match game.turnFault? role with
  | some fault => .error fault
  | none =>
    if move ∈ game.choices role then .ok (game.accept role move)
    else .error (.illegalMove role)

/-- Stop a game. Only the first stop has an effect. The players of a game that is
over were dismissed when it ended and may sit elsewhere since, so they are left
alone. -/
def stop (game : Game) : Game × List Effect :=
  if game.stopped then (game, [])
  else
    ({ game with stopped := true },
      .tell ⟨.info, "stopping game at step " ++ Decimal.render game.turn.step.toNat⟩ ::
        if game.phase.isOver then [] else game.dismissals)

/-- Break a game off because of a fault, in whatever phase it is. -/
def abort (game : Game) (fault : Fault) : Game × List Effect :=
  (game.enter (.aborted fault.message),
    .tell ⟨.error, "game aborted: " ++ fault.message⟩ :: game.dismissals)

theorem stop_of_stopped (game : Game) (h : game.stopped = true) :
    game.stop = (game, []) := by
  simp [stop, h]

theorem stop_fst (game : Game) : game.stop.1 = { game with stopped := true } := by
  cases h : game.stopped with
  | true =>
      cases game
      simp_all [stop]
  | false => simp [stop, h]

theorem start_of_stopped (game : Game) (h : game.stopped = true) :
    game.start = .error .stopped := by
  simp [start, h]

theorem play_of_stopped (game : Game) (role : Role) (move : Move)
    (h : game.stopped = true) : game.play role move = .error .stopped := by
  simp [play, turnFault?, h]

end Game

end BisimPlay
