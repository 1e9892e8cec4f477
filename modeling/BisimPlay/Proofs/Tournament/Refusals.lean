import BisimPlay.Proofs.Tournament.Coherence

/-!
# Calls that are refused

A game refuses a call for one reason, the first that applies: the roles that are offered for
seats come before the state of the game, a stop comes before the phase, and the phase comes
before the choices. `Game.Refuses` lists the reasons, each with all that has to hold for it
to be the first; `Game.on_eq_error_iff` says that the list is complete and that a call which
is refused for none of them is accepted.

In a tournament a refused call changes nothing. A move that is refused is remarked on, and a
person that has chosen it holds its choices again, although they left its hand before the
move was made.
-/

namespace BisimPlay

namespace Game

variable {game : Game} {call : Call} {fault : Fault}

/-- What a game requires of a call. To stop it or to break it off is always possible. -/
def Accepts (game : Game) : Call → Prop
  | .seat attacker defender =>
    attacker.2 = .attacker ∧ defender.2 = .defender ∧ game.stopped = false ∧
      game.phase.toMove? = none
  | .start =>
    game.stopped = false ∧ game.phase.toMove? = none ∧ game.attacker.isSome = true ∧
      game.defender.isSome = true
  | .play role move =>
    game.stopped = false ∧ game.phase = .toMove role ∧ move ∈ game.choices role
  | .stop | .abort _ => True

/-- The reasons for which a game refuses a call, and the fault that is reported for each. -/
inductive Refuses (game : Game) : Call → Fault → Prop
  | duplicateRole (attacker defender : PlayerId × Role) (hroles : attacker.2 = defender.2) :
      Refuses game (.seat attacker defender) (.duplicateRole attacker.2)
  | roleMismatch (attacker defender : PlayerId × Role) (hattacker : attacker.2 = .defender)
      (hdefender : defender.2 = .attacker) : Refuses game (.seat attacker defender) .roleMismatch
  | seatStopped (attacker defender : PlayerId × Role) (hattacker : attacker.2 = .attacker)
      (hdefender : defender.2 = .defender) (hstopped : game.stopped = true) :
      Refuses game (.seat attacker defender) .stopped
  | seatInProgress (attacker defender : PlayerId × Role) (hattacker : attacker.2 = .attacker)
      (hdefender : defender.2 = .defender) (hstopped : game.stopped = false)
      (hturn : game.phase.toMove?.isSome = true) :
      Refuses game (.seat attacker defender) .inProgress
  | startStopped (hstopped : game.stopped = true) : Refuses game .start .stopped
  | startInProgress (hstopped : game.stopped = false)
      (hturn : game.phase.toMove?.isSome = true) : Refuses game .start .inProgress
  | missingPlayers (hstopped : game.stopped = false) (hturn : game.phase.toMove? = none)
      (hseats : game.attacker = none ∨ game.defender = none) :
      Refuses game .start .missingPlayers
  | moveStopped (role : Role) (move : Move) (hstopped : game.stopped = true) :
      Refuses game (.play role move) .stopped
  | outOfTurn (role : Role) (move : Move) (hstopped : game.stopped = false)
      (hphase : game.phase = .toMove role.opponent) :
      Refuses game (.play role move) (.outOfTurn role)
  | notStarted (role : Role) (move : Move) (hstopped : game.stopped = false)
      (hphase : game.phase = .unstarted) : Refuses game (.play role move) .notStarted
  | gameOver (role : Role) (move : Move) (hstopped : game.stopped = false)
      (hover : game.phase.isOver = true) : Refuses game (.play role move) .gameOver
  | illegalMove (role : Role) (move : Move) (hstopped : game.stopped = false)
      (hphase : game.phase = .toMove role) (hmove : move ∉ game.choices role) :
      Refuses game (.play role move) (.illegalMove role)

theorem refuses_of_on_seat_eq_error {attacker defender : PlayerId × Role}
    (h : (Call.seat attacker defender).on game = .error fault) :
    game.Refuses (.seat attacker defender) fault := by
  rw [Call.on, seat] at h
  split at h
  · next hroles =>
      obtain rfl := Except.error.inj h
      exact .duplicateRole attacker defender hroles
  · next hroles =>
      split at h
      · next hattacker =>
          obtain rfl := Except.error.inj h
          have hdefends := Role.eq_opponent_of_ne hattacker
          have hattacks := Role.eq_opponent_of_ne (Ne.symm hroles)
          rw [hdefends] at hattacks
          exact .roleMismatch attacker defender hdefends hattacks
      · next hattacker =>
          rw [Decidable.not_not] at hattacker
          have hdefender : defender.2 = .defender :=
            Role.eq_opponent_of_ne (hattacker ▸ Ne.symm hroles)
          split at h
          · next hstopped =>
              obtain rfl := Except.error.inj h
              exact .seatStopped attacker defender hattacker hdefender hstopped
          · next hstopped =>
              split at h
              · next hturn =>
                  obtain rfl := Except.error.inj h
                  exact .seatInProgress attacker defender hattacker hdefender
                    (Bool.eq_false_iff.2 hstopped) hturn
              · exact absurd h (by simp [Except.map])

theorem refuses_of_start_eq_error (h : game.start = .error fault) :
    game.Refuses .start fault := by
  unfold start at h
  split at h
  · next hstopped =>
      obtain rfl := Except.error.inj h
      exact .startStopped hstopped
  · next hstopped =>
      have hrunning := Bool.eq_false_iff.2 hstopped
      split at h
      · next hturn =>
          obtain rfl := Except.error.inj h
          exact .startInProgress hrunning hturn
      · next hturn =>
          split at h
          · next hseats =>
              obtain rfl := Except.error.inj h
              exact .missingPlayers hrunning (by simpa using hturn)
                (hseats.imp Option.isNone_iff_eq_none.1 Option.isNone_iff_eq_none.1)
          · exact absurd h (by simp)

theorem refuses_of_play_eq_error {role : Role} {move : Move}
    (h : game.play role move = .error fault) : game.Refuses (.play role move) fault := by
  cases hstopped : game.stopped with
  | true =>
      rw [game.play_of_stopped role move hstopped] at h
      obtain rfl := Except.error.inj h
      exact .moveStopped role move hstopped
  | false =>
      rw [play, turnFault?, hstopped, if_neg Bool.false_ne_true] at h
      cases hphase : game.phase with
      | unstarted =>
          rw [hphase] at h
          obtain rfl := Except.error.inj h
          exact .notStarted role move hstopped hphase
      | finished winner =>
          rw [hphase] at h
          obtain rfl := Except.error.inj h
          exact .gameOver role move hstopped (by rw [hphase]; rfl)
      | aborted reason =>
          rw [hphase] at h
          obtain rfl := Except.error.inj h
          exact .gameOver role move hstopped (by rw [hphase]; rfl)
      | toMove holder =>
          by_cases hholder : holder = role
          · subst hholder
            by_cases hmove : move ∈ game.choices holder
            · simp [hphase, hmove] at h
            · simp only [hphase, if_true, if_neg hmove] at h
              obtain rfl := Except.error.inj h
              exact .illegalMove holder move hstopped hphase hmove
          · simp only [hphase, if_neg hholder] at h
            obtain rfl := Except.error.inj h
            exact .outOfTurn role move hstopped (hphase ▸ Role.eq_opponent_of_ne hholder ▸ rfl)

/-- A call is refused for the reasons that are listed, and for no other. -/
theorem on_eq_error_iff : call.on game = .error fault ↔ game.Refuses call fault := by
  constructor
  · intro h
    cases call with
    | seat attacker defender => exact refuses_of_on_seat_eq_error h
    | start => exact refuses_of_start_eq_error h
    | play role move => exact refuses_of_play_eq_error h
    | stop => exact absurd h (by simp [Call.on])
    | abort fault => exact absurd h (by simp [Call.on])
  · intro h
    cases h with
    | duplicateRole attacker defender hroles => simp [Call.on, seat, hroles, Except.map]
    | roleMismatch attacker defender hattacker hdefender =>
        simp [Call.on, seat, hattacker, hdefender, Except.map]
    | seatStopped attacker defender hattacker hdefender hstopped =>
        simp [Call.on, seat, hattacker, hdefender, hstopped, Except.map]
    | seatInProgress attacker defender hattacker hdefender hstopped hturn =>
        simp [Call.on, seat, hattacker, hdefender, hstopped, hturn, Except.map]
    | startStopped hstopped => exact game.start_of_stopped hstopped
    | startInProgress hstopped hturn => simp [Call.on, start, hstopped, hturn]
    | missingPlayers hstopped hturn hseats =>
        simp [Call.on, start, hstopped, hturn, hseats]
    | moveStopped role move hstopped => exact game.play_of_stopped role move hstopped
    | outOfTurn role move hstopped hphase =>
        simp [Call.on, play, turnFault?, hstopped, hphase, role.opponent_ne]
    | notStarted role move hstopped hphase =>
        simp [Call.on, play, turnFault?, hstopped, hphase]
    | gameOver role move hstopped hover =>
        cases hphase : game.phase <;>
          simp_all [Call.on, play, turnFault?, Phase.isOver]
    | illegalMove role move hstopped hphase hmove =>
        simp [Call.on, play, turnFault?, hstopped, hphase, hmove]

theorem exists_on_eq_ok_iff : (∃ result, call.on game = .ok result) ↔ game.Accepts call := by
  constructor
  · rintro ⟨⟨next, effects⟩, h⟩
    cases call with
    | seat attacker defender =>
        obtain ⟨hattacker, hdefender, hstopped, hturn, _⟩ := of_on_seat_eq_ok h
        exact ⟨hattacker, hdefender, hstopped, hturn⟩
    | start =>
        obtain ⟨hstopped, hturn, hattacker, hdefender, _⟩ := of_start_eq_ok h
        exact ⟨hstopped, hturn, hattacker, hdefender⟩
    | play role move =>
        obtain ⟨hstopped, hphase, hmove, _⟩ := play_eq_ok_iff.1 h
        exact ⟨hstopped, hphase, hmove⟩
    | stop => trivial
    | abort fault => trivial
  · intro h
    cases call with
    | seat attacker defender =>
        obtain ⟨hattacker, hdefender, hstopped, hturn⟩ := h
        simp [Call.on, seat, hattacker, hdefender, hstopped, hturn, Except.map]
    | start =>
        obtain ⟨hstopped, hturn, hattacker, hdefender⟩ := h
        simp [Call.on, start, hstopped, hturn, Option.isSome_iff_ne_none.1 hattacker,
          Option.isSome_iff_ne_none.1 hdefender]
    | play role move => exact ⟨_, play_eq_ok_iff.2 ⟨h.1, h.2.1, h.2.2, rfl⟩⟩
    | stop => exact ⟨_, rfl⟩
    | abort fault => exact ⟨_, rfl⟩

end Game

namespace Tournament

variable {t : Tournament} {g : GameId} {p : PlayerId} {game : Game}

/-- A call is answered as it should be: it is accepted when it is to be, it is refused for the
faults that it is to be refused for, and a refusal changes nothing but what has been remarked
on. -/
structure IsAnswered (t : Tournament) (accepts : Prop) (refuses : Fault → Prop)
    (answer : Except Fault Unit × Tournament) : Prop where
  eq_ok_iff : answer.1 = .ok () ↔ accepts
  eq_error_iff : ∀ fault, answer.1 = .error fault ↔ refuses fault
  eq_of_eq_error : ∀ fault, answer.1 = .error fault →
    { answer.2 with notices := t.notices } = t

theorem isAnswered_changeBy (perform : Performer) (hgame : t.game? g = some game)
    (call : Call) :
    t.IsAnswered (game.Accepts call) (game.Refuses call)
      (t.changeBy perform g fun game => call.on game) := by
  have haccepts : (∃ result, call.on game = .ok result) ↔ game.Accepts call :=
    Game.exists_on_eq_ok_iff
  have hrefuses (fault : Fault) : call.on game = .error fault ↔ game.Refuses call fault :=
    Game.on_eq_error_iff
  cases hcall : call.on game with
  | error fault =>
      simp only [hcall, reduceCtorEq, exists_false, false_iff] at haccepts
      rw [changeBy_of_error perform t g _ game fault hgame hcall]
      refine ⟨iff_of_false (by simp) haccepts, fun other => ?_, fun _ _ => rfl⟩
      rw [← hrefuses other, hcall]
      simp
  | ok result =>
      have hchange : (t.changeBy perform g fun game => call.on game).1 = .ok () := by
        simp [changeBy, hgame, hcall]
      rw [hcall] at haccepts
      refine ⟨iff_of_true hchange (haccepts.1 ⟨result, rfl⟩), fun other => ?_,
        fun fault hfault => ?_⟩
      · rw [← hrefuses other, hcall, hchange]
        simp
      · exact absurd (hchange.symm.trans hfault) (by simp)

theorem isAnswered_playBy (perform : Performer) (hgame : t.game? g = some game) (role : Role)
    (move : Move) :
    t.IsAnswered (game.Accepts (.play role move)) (game.Refuses (.play role move))
      (t.playBy perform g role move) := by
  have hchange := isAnswered_changeBy perform hgame (.play role move)
  rcases t.playBy_cases perform g role move with heq | ⟨notice, heq⟩
  · rwa [heq]
  · rw [heq]
    exact ⟨hchange.eq_ok_iff, hchange.eq_error_iff, hchange.eq_of_eq_error⟩

theorem isAnswered_seat (hgame : t.game? g = some game) {attacker defender : PlayerId}
    {first second : Role} (hfirst : t.role? attacker = some first)
    (hsecond : t.role? defender = some second) :
    t.IsAnswered (game.Accepts (.seat (attacker, first) (defender, second)))
      (game.Refuses (.seat (attacker, first) (defender, second))) (t.seat g attacker defender) := by
  obtain ⟨one, hone, rfl⟩ := Option.map_eq_some_iff.1 hfirst
  obtain ⟨other, hother, rfl⟩ := Option.map_eq_some_iff.1 hsecond
  have hseat : t.seat g attacker defender = t.changeBy t.performer g fun game =>
      (Call.seat (attacker, one.role) (defender, other.role)).on game := by
    simp only [seat, hone, hother]
    rfl
  rw [hseat]
  exact isAnswered_changeBy t.performer hgame _

theorem isAnswered_choose (hgame : t.game? g = some game) {player : Player}
    (hplayer : t.player? p = some player) (index : Nat) :
    t.IsAnswered
      (∃ move, player.heldChoices[index]? = some move ∧ (t.play g player.role move).1 = .ok ())
      (fun fault => (player.heldChoices[index]? = none ∧ fault = .noSuchChoice index) ∨
        ∃ move, player.heldChoices[index]? = some move ∧
          (t.play g player.role move).1 = .error fault)
      (t.choose p index g) := by
  rw [choose, hplayer]
  cases hchoice : player.heldChoices[index]? with
  | none =>
      simp only [hchoice]
      exact ⟨by simp, fun fault => by simp [eq_comm], fun _ _ => rfl⟩
  | some move =>
      have hheld : (t.modifyPlayer p (·.holding [])).game? g = some game := hgame
      simp only [hchoice, Option.some.injEq, exists_eq_left', reduceCtorEq, false_and, false_or]
      cases hplay : game.play player.role move with
      | error fault =>
          rw [play_of_eq_error hheld hplay, play_of_eq_error hgame hplay]
          refine ⟨Iff.rfl, fun _ => Iff.rfl, fun _ _ => ?_⟩
          exact modifyPlayer_holding_holding hplayer
      | ok result =>
          rw [play_of_eq_ok hheld hplay, play_of_eq_ok hgame hplay]
          exact ⟨Iff.rfl, fun _ => Iff.rfl, fun fault hfault => absurd hfault (by simp)⟩

/-- Calls on a game are accepted exactly when they should be, in every state of a tournament
and for all rules, and refused for the first reason that applies. A call that is refused leaves
the tournament as it was, but for the remark on a refused move: every game with its phase, its
turn, its seats, its record and all that was published of it, every hand, and every decision
that is pending. It makes no difference in which way effects are carried out, so the same holds
of the moves and starts of a player that acts from within a prompt. -/
theorem isAnswered_of_game?_eq_some (hgame : t.game? g = some game) :
    (∀ perform role move, t.IsAnswered
      (game.stopped = false ∧ game.phase = .toMove role ∧
        move ∈ game.rules.choices game.turn.node role)
      (game.Refuses (.play role move)) (t.playBy perform g role move)) ∧
    (∀ perform, t.IsAnswered
      (game.stopped = false ∧ game.phase.toMove? = none ∧ game.attacker.isSome = true ∧
        game.defender.isSome = true)
      (game.Refuses .start) (t.startBy perform g)) ∧
    (∀ attacker defender first second, t.role? attacker = some first →
      t.role? defender = some second → t.IsAnswered
        (first = .attacker ∧ second = .defender ∧ game.stopped = false ∧
          game.phase.toMove? = none)
        (game.Refuses (.seat (attacker, first) (defender, second)))
        (t.seat g attacker defender)) ∧
    (∀ p player index, t.player? p = some player → t.IsAnswered
      (∃ move, player.heldChoices[index]? = some move ∧ (t.play g player.role move).1 = .ok ())
      (fun fault => (player.heldChoices[index]? = none ∧ fault = .noSuchChoice index) ∨
        ∃ move, player.heldChoices[index]? = some move ∧
          (t.play g player.role move).1 = .error fault)
      (t.choose p index g)) :=
  ⟨fun perform role move => isAnswered_playBy perform hgame role move,
    fun perform => isAnswered_changeBy perform hgame .start,
    fun _ _ _ _ hfirst hsecond => isAnswered_seat hgame hfirst hsecond,
    fun _ _ index hplayer => isAnswered_choose hgame hplayer index⟩

/-- A game of one attack and two people, who are not yet seated. -/
def table : Tournament :=
  { duel with players := #[.human .attacker .first, .human .defender .second] }

def tableOn : Tournament := table.run [.seat 0 0 1, .start 0]

/-- While the game at the table is on, the attacker can choose its move and the defender cannot
make it. When the attacker chooses too late, it still holds what it held. -/
theorem isAnswered_table :
    ∃ player move, tableOn.player? 0 = some player ∧ player.heldChoices = [move] ∧
      (tableOn.choose 0 0 0).1 = .ok () ∧
      (tableOn.play 0 .defender move).1 = .error (.outOfTurn .defender) ∧
      ((tableOn.stop 0).choose 0 0 0).1 = .error .stopped ∧
      { ((tableOn.stop 0).choose 0 0 0).2 with notices := (tableOn.stop 0).notices } =
        tableOn.stop 0 := by
  obtain ⟨hplays, _, _, hchooses⟩ :=
    isAnswered_of_game?_eq_some (t := tableOn) (g := 0) rfl
  obtain ⟨_, _, _, hlate⟩ :=
    isAnswered_of_game?_eq_some (t := tableOn.stop 0) (g := 0) rfl
  have hmove := (hplays tableOn.performer .attacker _).eq_ok_iff.2
    ⟨rfl, rfl, List.mem_cons_self⟩
  have hturn (move : Move) := ((hplays tableOn.performer .defender move).eq_error_iff _).2
    (.outOfTurn .defender move rfl rfl)
  have hrefused := ((hlate 0 _ 0 rfl).eq_error_iff .stopped).2 (.inr ⟨_, rfl, rfl⟩)
  exact ⟨_, _, rfl, rfl, (hchooses 0 _ 0 rfl).eq_ok_iff.2 ⟨_, rfl, hmove⟩, hturn _, hrefused,
    (hlate 0 _ 0 rfl).eq_of_eq_error _ hrefused⟩

end Tournament

end BisimPlay
