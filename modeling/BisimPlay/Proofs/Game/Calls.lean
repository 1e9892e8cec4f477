import BisimPlay.Game.Referee

/-!
# Calls on a game

Everything that changes a game is a call: seating, starting, moving, stopping, breaking
off. This module says once what each call does when it is allowed. A start and a move end
in the same way, by giving the turn to a role, and what that comes to depends on one
question: whether the role has a choice. If it has, its player is prompted; if not, the
game is won and the seated players are dismissed. Everything else that a call wants done
is to give notices.
-/

namespace BisimPlay

inductive Call
  | seat (attacker defender : PlayerId × Role)
  | start
  | play (role : Role) (move : Move)
  | stop
  | abort (fault : Fault)

namespace Call

def on (game : Game) : Call → Except Fault (Game × List Effect)
  | seat attacker defender => (game.seat attacker defender).map fun game => (game, [])
  | start => game.start
  | play role move => game.play role move
  | stop => .ok game.stop
  | abort fault => .ok (game.abort fault)

end Call

namespace Game

variable {game next : Game} {role : Role} {move : Move} {effects : List Effect}

/-- The game at its root with a blank record, before anyone has the turn. -/
def fresh (game : Game) : Game :=
  { game with turn := .first game.rules.root, record := game.record.clear }

/-- The entries of a move: an attack comes under the number of its round. -/
def entriesOf (game : Game) (role : Role) (move : Move) : List Entry :=
  match role with
  | .attacker =>
    [.round (game.turn.advance role move).round, .play role move (game.rules.label move.target)]
  | .defender => [.play role move (game.rules.label move.target)]

/-- The game with a move made and written down, before anyone has the turn. -/
def moved (game : Game) (role : Role) (move : Move) : Game :=
  { game with
    turn := game.turn.advance role move
    record := (game.entriesOf role move).foldl Record.add game.record }

def frozen (game : Game) : Game := { game with stopped := true }

def players (game : Game) : List PlayerId := game.attacker.toList ++ game.defender.toList

theorem mem_players_iff (game : Game) (p : PlayerId) :
    p ∈ game.players ↔ ∃ role, game.seated role = some p := by
  rw [players, List.mem_append, Option.mem_toList, Option.mem_toList]
  constructor
  · rintro (hattacker | hdefender)
    · exact ⟨.attacker, hattacker⟩
    · exact ⟨.defender, hdefender⟩
  · rintro ⟨role, hrole⟩
    cases role with
    | attacker => exact .inl hrole
    | defender => exact .inr hrole

theorem seated_congr (hattacker : game.attacker = next.attacker)
    (hdefender : game.defender = next.defender) (role : Role) :
    game.seated role = next.seated role := by
  cases role with
  | attacker => exact hattacker
  | defender => exact hdefender

theorem dismissals_eq (game : Game) : game.dismissals = game.players.map .dismiss :=
  (List.map_append ..).symm

theorem exists_handOver_eq_of_nil (h : game.choices role = []) :
    ∃ heading : List Notice, game.handOver role =
      ({ game with
          record := game.record.add (.winner role.opponent)
          phase := .finished role.opponent
          publications := game.publications + 1 },
        heading.map .tell ++ game.dismissals) := by
  refine ⟨⟨.info, role.opponent.text ++ " wins after " ++
    Decimal.render game.turn.step.toNat ++ " moves"⟩ ::
    game.record.remarks (.winner role.opponent), ?_⟩
  unfold handOver
  rw [h]
  rfl

theorem handOver_eq_of_ne_nil (h : game.choices role ≠ []) :
    game.handOver role =
      (game.enter (.toMove role),
        (game.seated role).toList.map fun player => .prompt player (game.choices role)) := by
  unfold handOver
  split
  · next hnone => exact absurd hnone h
  · rfl

theorem exists_accept_eq (game : Game) (role : Role) (move : Move) :
    ∃ heading : List Notice, game.accept role move =
      (((game.moved role move).handOver role.opponent).1,
        heading.map .tell ++ ((game.moved role move).handOver role.opponent).2) := by
  cases role with
  | attacker =>
      refine ⟨game.record.remarks (.round (game.turn.advance .attacker move).round) ++
        game.record.remarks (.play .attacker move (game.rules.label move.target)), ?_⟩
      rw [List.map_append]
      rfl
  | defender =>
      exact ⟨game.record.remarks (.play .defender move (game.rules.label move.target)), rfl⟩

/-- A start is allowed when the game is not stopped, no turn is open and both seats are
filled. The attacker is given the turn of the fresh game. -/
theorem of_start_eq_ok (h : game.start = .ok (next, effects)) :
    game.stopped = false ∧ game.phase.toMove? = none ∧
      game.attacker.isSome = true ∧ game.defender.isSome = true ∧
      next = (game.fresh.handOver .attacker).1 ∧
      effects = [⟨.info, "starting game at " ++ game.rules.root.text⟩].map .tell ++
        (game.fresh.handOver .attacker).2 := by
  unfold start at h
  split at h
  · exact absurd h (by simp)
  · next hstopped =>
      split at h
      · exact absurd h (by simp)
      · next hturn =>
          split at h
          · exact absurd h (by simp)
          · next hseats =>
              obtain ⟨rfl, rfl⟩ := Prod.mk.inj (Except.ok.inj h)
              refine ⟨by simpa using hstopped, by simpa using hturn, ?_, ?_, rfl, rfl⟩
              · simpa [Option.isSome_iff_ne_none] using fun hnone => hseats (.inl (by simp [hnone]))
              · simpa [Option.isSome_iff_ne_none] using fun hnone => hseats (.inr (by simp [hnone]))

theorem play_eq_ok_iff :
    game.play role move = .ok (next, effects) ↔
      game.stopped = false ∧ game.phase = .toMove role ∧ move ∈ game.choices role ∧
        game.accept role move = (next, effects) := by
  unfold play turnFault?
  cases hstopped : game.stopped with
  | true => simp
  | false =>
      cases hphase : game.phase with
      | unstarted => simp
      | finished winner => simp
      | aborted reason => simp
      | toMove holder =>
          by_cases hholder : holder = role
          · by_cases hmove : move ∈ game.choices role
            · simp [hholder, hmove]
            · simp [hholder, hmove]
          · simp [hholder]

theorem of_on_seat_eq_ok {attacker defender : PlayerId × Role}
    (h : (Call.seat attacker defender).on game = .ok (next, effects)) :
    attacker.2 = .attacker ∧ defender.2 = .defender ∧ game.stopped = false ∧
      game.phase.toMove? = none ∧
      next = { game with attacker := some attacker.1, defender := some defender.1 } ∧
      effects = [] := by
  rw [Call.on, seat] at h
  split at h
  · exact absurd h (by simp [Except.map])
  · next hroles =>
      split at h
      · exact absurd h (by simp [Except.map])
      · next hattacker =>
          split at h
          · exact absurd h (by simp [Except.map])
          · next hstopped =>
              split at h
              · exact absurd h (by simp [Except.map])
              · next hturn =>
                  rw [Decidable.not_not] at hattacker
                  rw [hattacker] at hroles
                  obtain ⟨hnext, heffects⟩ := Prod.mk.inj (Except.ok.inj h)
                  exact ⟨hattacker, Role.eq_opponent_of_ne (Ne.symm hroles),
                    by simpa using hstopped, by simpa using hturn, hnext.symm, heffects.symm⟩

theorem exists_handOver_fst_eq (game : Game) (role : Role) :
    ∃ record phase, (game.handOver role).1 =
        { game with record, phase, publications := game.publications + 1 } ∧
      (game.choices role = [] ∧ record = game.record.add (.winner role.opponent) ∧
          phase = .finished role.opponent ∨
        game.choices role ≠ [] ∧ record = game.record ∧ phase = .toMove role) := by
  by_cases hnone : game.choices role = []
  · obtain ⟨heading, heq⟩ := exists_handOver_eq_of_nil hnone
    rw [heq]
    exact ⟨_, _, rfl, .inl ⟨hnone, rfl, rfl⟩⟩
  · rw [handOver_eq_of_ne_nil hnone]
    exact ⟨_, _, rfl, .inr ⟨hnone, rfl, rfl⟩⟩

@[simp] theorem rules_handOver (game : Game) (role : Role) :
    (game.handOver role).1.rules = game.rules := by
  obtain ⟨record, phase, heq, _⟩ := game.exists_handOver_fst_eq role
  rw [heq]

@[simp] theorem turn_handOver (game : Game) (role : Role) :
    (game.handOver role).1.turn = game.turn := by
  obtain ⟨record, phase, heq, _⟩ := game.exists_handOver_fst_eq role
  rw [heq]

@[simp] theorem stopped_handOver (game : Game) (role : Role) :
    (game.handOver role).1.stopped = game.stopped := by
  obtain ⟨record, phase, heq, _⟩ := game.exists_handOver_fst_eq role
  rw [heq]

theorem phase_handOver_ne_unstarted (game : Game) (role : Role) :
    (game.handOver role).1.phase ≠ .unstarted := by
  obtain ⟨record, phase, heq, hcases⟩ := game.exists_handOver_fst_eq role
  rw [heq]
  rcases hcases with ⟨_, _, rfl⟩ | ⟨_, _, rfl⟩
  · simp
  · simp

/-- What a call makes of a game, and when it is allowed. -/
inductive Becomes (game : Game) : Call → Game → Prop
  | seated (attacker defender : PlayerId × Role) (hstopped : game.stopped = false)
      (hturn : game.phase.toMove? = none) :
      Becomes game (.seat attacker defender)
        { game with attacker := some attacker.1, defender := some defender.1 }
  | started (hstopped : game.stopped = false) (hturn : game.phase.toMove? = none)
      (hattacker : game.attacker.isSome = true) (hdefender : game.defender.isSome = true) :
      Becomes game .start (game.fresh.handOver .attacker).1
  | moved (role : Role) (move : Move) (hstopped : game.stopped = false)
      (hphase : game.phase = .toMove role) (hmove : move ∈ game.choices role) :
      Becomes game (.play role move) ((game.moved role move).handOver role.opponent).1
  | stopped : Becomes game .stop game.frozen
  | aborted (fault : Fault) : Becomes game (.abort fault) (game.enter (.aborted fault.message))

theorem becomes_of_on_eq_ok {call : Call} (h : call.on game = .ok (next, effects)) :
    game.Becomes call next := by
  cases call with
  | seat attacker defender =>
      obtain ⟨_, _, hstopped, hturn, rfl, _⟩ := of_on_seat_eq_ok h
      exact .seated attacker defender hstopped hturn
  | start =>
      obtain ⟨hstopped, hturn, hattacker, hdefender, rfl, _⟩ := of_start_eq_ok h
      exact .started hstopped hturn hattacker hdefender
  | play role move =>
      obtain ⟨hstopped, hphase, hmove, haccept⟩ := play_eq_ok_iff.1 h
      obtain ⟨heading, heq⟩ := game.exists_accept_eq role move
      rw [← (Prod.mk.inj (heq.symm.trans haccept)).1]
      exact .moved role move hstopped hphase hmove
  | stop =>
      rw [← show game.stop.1 = next from congrArg Prod.fst (Except.ok.inj h), stop_fst]
      exact .stopped
  | abort fault =>
      rw [← show (game.abort fault).1 = next from congrArg Prod.fst (Except.ok.inj h)]
      exact .aborted fault

theorem seated_handOver (game : Game) (role other : Role) :
    (game.handOver role).1.seated other = game.seated other := by
  obtain ⟨record, phase, heq, _⟩ := game.exists_handOver_fst_eq role
  rw [heq]
  exact seated_congr rfl rfl other

/-- What a call comes to for the players. Seats are filled in silence, and only while no
turn is open. Otherwise the seats stay as they are, and after some notices one of three
things happens: the turn goes to a role and its player is prompted, the turn is closed and
the seated players are dismissed, or a game that has been closed before is stopped. -/
inductive Outcome (game next : Game) : Call → List Effect → Prop
  | seated (attacker defender : PlayerId × Role)
      (hattacker : attacker.2 = .attacker) (hdefender : defender.2 = .defender)
      (hturn : game.phase.toMove? = none)
      (hnext : next = { game with
        attacker := some attacker.1, defender := some defender.1 }) :
      Outcome game next (.seat attacker defender) []
  | prompted (call : Call) (heading : List Notice) (role : Role)
      (hseats : ∀ other, next.seated other = game.seated other)
      (hstopped : next.stopped = false) (hphase : next.phase = .toMove role)
      (hturn : game.phase.toMove? = none ∨
        ∃ move, call = .play role.opponent move ∧ game.phase = .toMove role.opponent) :
      Outcome game next call (heading.map .tell ++
        (game.seated role).toList.map fun player => .prompt player (next.choices role))
  | dismissed (call : Call) (heading : List Notice)
      (hseats : ∀ other, next.seated other = game.seated other)
      (hclosed : next.stopped = true ∨ next.phase.toMove? = none) :
      Outcome game next call (heading.map .tell ++ game.dismissals)
  | closed (heading : List Notice) (hphase : next.phase = game.phase)
      (hseats : ∀ other, next.seated other = game.seated other)
      (hstopped : next.stopped = true)
      (hclosed : game.stopped = true ∨ game.phase.toMove? = none) :
      Outcome game next .stop (heading.map .tell)

theorem outcome_handOver {call : Call} {before : Game} (heading : List Notice)
    (hseats : ∀ other, game.seated other = before.seated other)
    (hstopped : game.stopped = false)
    (hturn : before.phase.toMove? = none ∨
      ∃ move, call = .play role.opponent move ∧ before.phase = .toMove role.opponent) :
    Outcome before (game.handOver role).1 call
      (heading.map .tell ++ (game.handOver role).2) := by
  have hafter : ∀ other, (game.handOver role).1.seated other = before.seated other :=
    fun other => (seated_handOver game role other).trans (hseats other)
  by_cases hnone : game.choices role = []
  · obtain ⟨notices, heq⟩ := exists_handOver_eq_of_nil hnone
    have hdismissals : game.dismissals = before.dismissals := by
      have hattacker : game.attacker = before.attacker := hseats .attacker
      have hdefender : game.defender = before.defender := hseats .defender
      rw [dismissals, dismissals, hattacker, hdefender]
    rw [heq] at hafter ⊢
    rw [← List.append_assoc, ← List.map_append, hdismissals]
    exact .dismissed call _ hafter (.inr rfl)
  · rw [handOver_eq_of_ne_nil hnone] at hafter ⊢
    rw [hseats role]
    exact .prompted call heading role hafter hstopped rfl hturn

theorem exists_stop_eq (game : Game) :
    ∃ heading : List Notice, game.stop =
      (game.frozen, heading.map .tell ++
        if game.stopped = false ∧ game.phase.isOver = false then game.dismissals else []) := by
  cases hstopped : game.stopped with
  | true =>
      refine ⟨[], Prod.ext game.stop_fst ?_⟩
      simp [stop_of_stopped game hstopped]
  | false =>
      refine ⟨[⟨.info, "stopping game at step " ++ Decimal.render game.turn.step.toNat⟩],
        Prod.ext game.stop_fst ?_⟩
      cases hover : game.phase.isOver with
      | true => simp [stop, hstopped, hover]
      | false => simp [stop, hstopped, hover]

theorem outcome_stop (game : Game) : Outcome game game.stop.1 .stop game.stop.2 := by
  have hseats : ∀ other, game.frozen.seated other = game.seated other := seated_congr rfl rfl
  obtain ⟨heading, heq⟩ := game.exists_stop_eq
  rw [heq]
  split
  · exact .dismissed .stop heading hseats (.inl rfl)
  · next hopen =>
      rw [List.append_nil]
      refine .closed heading rfl hseats rfl ?_
      cases hstopped : game.stopped with
      | true => exact .inl rfl
      | false => exact .inr (Phase.toMove?_of_isOver _ (by simpa [hstopped] using hopen))

theorem outcome_of_on_eq_ok {call : Call} (h : call.on game = .ok (next, effects)) :
    Outcome game next call effects := by
  cases call with
  | seat attacker defender =>
      obtain ⟨hattacker, hdefender, _, hturn, hnext, rfl⟩ := of_on_seat_eq_ok h
      exact .seated attacker defender hattacker hdefender hturn hnext
  | start =>
      obtain ⟨hstopped, hturn, _, _, rfl, rfl⟩ := of_start_eq_ok h
      exact outcome_handOver _ (seated_congr rfl rfl) hstopped (.inl hturn)
  | play role move =>
      obtain ⟨hstopped, hphase, _, haccept⟩ := play_eq_ok_iff.1 h
      obtain ⟨heading, heq⟩ := game.exists_accept_eq role move
      obtain ⟨rfl, rfl⟩ := Prod.mk.inj (heq.symm.trans haccept)
      refine outcome_handOver heading (seated_congr rfl rfl) hstopped (.inr ⟨move, ?_⟩)
      rw [Role.opponent_opponent]
      exact ⟨rfl, hphase⟩
  | stop =>
      have heq := Except.ok.inj h
      rw [← show game.stop.1 = next from congrArg Prod.fst heq,
        ← show game.stop.2 = effects from congrArg Prod.snd heq]
      exact outcome_stop game
  | abort fault =>
      obtain ⟨rfl, rfl⟩ := Prod.mk.inj (Except.ok.inj h)
      exact .dismissed (.abort fault) [_] (seated_congr rfl rfl) (.inr rfl)

theorem severity_of_tell_mem_write {entry : Entry} {notice : Notice}
    (h : .tell notice ∈ (game.write entry).2) : notice.severity = .info := by
  obtain ⟨other, hother, heq⟩ := List.mem_map.1 h
  obtain rfl := Effect.tell.inj heq
  unfold Record.remarks at hother
  split at hother
  · rw [List.mem_singleton.1 hother]
  · exact absurd hother List.not_mem_nil

theorem tell_not_mem_dismissals (game : Game) (notice : Notice) :
    .tell notice ∉ game.dismissals := by
  rw [game.dismissals_eq, List.mem_map]
  rintro ⟨player, _, heq⟩
  exact Effect.noConfusion heq

theorem severity_of_tell_mem_handOver {notice : Notice}
    (h : .tell notice ∈ (game.handOver role).2) : notice.severity = .info := by
  unfold handOver at h
  split at h
  · rcases List.mem_cons.1 h with heq | hrest
    · rw [Effect.tell.inj heq]
    · rcases List.mem_append.1 hrest with hremark | hdismissal
      · exact severity_of_tell_mem_write hremark
      · exact absurd hdismissal (tell_not_mem_dismissals _ notice)
  · obtain ⟨player, _, heq⟩ := List.mem_map.1 h
    exact Effect.noConfusion heq

theorem severity_of_tell_mem_accept {notice : Notice}
    (h : .tell notice ∈ (game.accept role move).2) : notice.severity = .info := by
  cases role with
  | attacker =>
      rcases List.mem_append.1 h with hwritten | hgiven
      · rcases List.mem_append.1 hwritten with hround | hplay
        · exact severity_of_tell_mem_write hround
        · exact severity_of_tell_mem_write hplay
      · exact severity_of_tell_mem_handOver hgiven
  | defender =>
      rcases List.mem_append.1 h with hplay | hgiven
      · exact severity_of_tell_mem_write hplay
      · exact severity_of_tell_mem_handOver hgiven

theorem severity_of_on_eq_ok {call : Call} (hcall : call.on game = .ok (next, effects))
    (habort : ∀ fault, call ≠ .abort fault) {notice : Notice} (h : .tell notice ∈ effects) :
    notice.severity = .info := by
  cases call with
  | seat attacker defender =>
      obtain ⟨_, _, _, _, _, rfl⟩ := of_on_seat_eq_ok hcall
      exact absurd h List.not_mem_nil
  | start =>
      obtain ⟨_, _, _, _, _, rfl⟩ := of_start_eq_ok hcall
      rcases List.mem_cons.1 h with heq | hgiven
      · rw [Effect.tell.inj heq]
      · exact severity_of_tell_mem_handOver hgiven
  | play role move =>
      obtain ⟨_, _, _, haccept⟩ := play_eq_ok_iff.1 hcall
      rw [show effects = (game.accept role move).2 by rw [haccept]] at h
      exact severity_of_tell_mem_accept h
  | stop =>
      rw [show effects = game.stop.2 from (congrArg Prod.snd (Except.ok.inj hcall)).symm] at h
      unfold stop at h
      split at h
      · exact absurd h List.not_mem_nil
      · rcases List.mem_cons.1 h with heq | hrest
        · rw [Effect.tell.inj heq]
        · split at hrest
          · exact absurd hrest List.not_mem_nil
          · exact absurd hrest (tell_not_mem_dismissals game notice)
  | abort fault => exact absurd rfl (habort fault)

/-- The call that a decision comes to: its move if the game allows it, and otherwise
breaking off. -/
def answer (game : Game) (role : Role) : Except Fault Move → Call
  | .error fault => .abort fault
  | .ok move =>
    match game.play role move with
    | .error fault => .abort fault
    | .ok _ => .play role move

def refusal (game : Game) (role : Role) : Except Fault Move → List Notice
  | .error _ => []
  | .ok move =>
    match game.play role move with
    | .error fault => [⟨.warn, "rejected " ++ role.text ++ " move: " ++ fault.message⟩]
    | .ok _ => []

theorem answer_of_play_eq_ok {result : Game × List Effect}
    (h : game.play role move = .ok result) : game.answer role (.ok move) = .play role move := by
  simp [answer, h]

theorem exists_on_answer_eq_ok (game : Game) (role : Role) (decided : Except Fault Move) :
    ∃ next effects, (game.answer role decided).on game = .ok (next, effects) ∧
      ((∃ fault, game.answer role decided = .abort fault) ∨
        ∃ move, decided = .ok move ∧ game.answer role decided = .play role move) := by
  cases decided with
  | error fault => exact ⟨_, _, rfl, .inl ⟨fault, rfl⟩⟩
  | ok move =>
      cases hplay : game.play role move with
      | error fault =>
          have hanswer : game.answer role (.ok move) = .abort fault := by simp [answer, hplay]
          rw [hanswer]
          exact ⟨_, _, rfl, .inl ⟨fault, rfl⟩⟩
      | ok result =>
          rw [answer_of_play_eq_ok hplay]
          exact ⟨_, _, hplay, .inr ⟨move, rfl, rfl⟩⟩

theorem answer_ne_seat (game : Game) (role : Role) (decided : Except Fault Move)
    (attacker defender : PlayerId × Role) :
    game.answer role decided ≠ .seat attacker defender := by
  obtain ⟨_, _, _, ⟨fault, hanswer⟩ | ⟨move, _, hanswer⟩⟩ :=
    game.exists_on_answer_eq_ok role decided
  · rw [hanswer]
    simp
  · rw [hanswer]
    simp

end Game

end BisimPlay
