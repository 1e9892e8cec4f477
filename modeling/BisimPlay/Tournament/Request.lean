import BisimPlay.Tournament.Clock

/-!
# Requests

Everything that can be asked of a tournament from outside, as data. A run of a
tournament is a list of requests served in order, whatever their results.
-/

namespace BisimPlay

/-- Something that can be asked of a tournament. -/
inductive Request
  /-- Seat two players in a game. -/
  | seat (game : GameId) (attacker defender : PlayerId)
  /-- Start a game. -/
  | start (game : GameId)
  /-- Make a move for a role. -/
  | play (game : GameId) (role : Role) (move : Move)
  /-- Have a person play one of its choices. -/
  | choose (player : PlayerId) (index : Nat) (game : GameId)
  /-- Stop a game. -/
  | stop (game : GameId)
  /-- Break a game off. -/
  | abort (game : GameId) (fault : Fault)
  /-- Tell a player that it is to move. -/
  | prompt (player : PlayerId) (game : GameId) (choices : List Move)
  /-- Have a player drop its pending decision. -/
  | dismiss (player : PlayerId)
  /-- Release a game. -/
  | release (game : GameId)
  /-- Move the clock on. -/
  | advance (duration : Nat)
deriving DecidableEq, Inhabited

namespace Tournament

/-- Serve a request. -/
def serve (t : Tournament) : Request → Except Fault Unit × Tournament
  | .seat g attacker defender => t.seat g attacker defender
  | .start g => t.start g
  | .play g role move => t.play g role move
  | .choose p index g => t.choose p index g
  | .stop g => (.ok (), t.stop g)
  | .abort g fault => (.ok (), t.abort g fault)
  | .prompt p g choices => (.ok (), t.prompt p g choices)
  | .dismiss p => (.ok (), t.dismiss p)
  | .release g => (.ok (), t.release g)
  | .advance duration => (.ok (), t.advance duration)

/-- Serve requests in order. -/
def run (t : Tournament) (requests : List Request) : Tournament :=
  requests.foldl (fun t request => (t.serve request).2) t

@[simp] theorem run_nil (t : Tournament) : t.run [] = t := rfl

theorem run_cons (t : Tournament) (request : Request) (rest : List Request) :
    t.run (request :: rest) = (t.serve request).2.run rest := rfl

theorem run_append (t : Tournament) (requests later : List Request) :
    t.run (requests ++ later) = (t.run requests).run later := by
  simp [run, List.foldl_append]

end Tournament

end BisimPlay
