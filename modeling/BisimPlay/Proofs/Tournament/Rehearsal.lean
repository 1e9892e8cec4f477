import BisimPlay.Proofs.Game.Twins
import BisimPlay.Proofs.Tournament.Duels

/-!
# Playing a game again

The record of a game is enough to play the game again. A new game over the same rules, whose
players do not act by themselves, is started, and is asked for the moves on record in their
order. It accepts each of them, has the turns that the first game has had since it was last
started, and in the end is in the same phase with the same entries on record.

The turns that a game has had are not part of it, so they are noted down along the way:
`Trail` is a way through a tournament with the turns of one game since its last start.
`Rehearses` says what comes of playing again, and `Rehearses.of_trail` proves it of every
trail.
-/

namespace BisimPlay

/-- The turns of a game since its last start, after one more call has brought it a turn. -/
def Call.noted (turns : List Turn) (turn : Turn) : Call → List Turn
  | .start => [turn]
  | .play _ _ => turns ++ [turn]
  | .seat _ _ | .stop | .abort _ => turns

namespace Tournament

variable {permit : Permit} {t s r : Tournament} {g h : GameId} {game next : Game}
  {turns : List Turn}

/-- A way through a tournament, with the turns of a game since its last start. -/
inductive Trail (permit : Permit) (g : GameId) (t : Tournament) : List Turn → Tournament → Prop
  | start : Trail permit g t [] t
  /-- A step that leaves the game as it is, or releases it. -/
  | aside {turns : List Turn} {s u : Tournament} (htrail : Trail permit g t turns s)
      (hstep : Step permit s u) (hsame : ∀ game, u.game? g = some game → s.game? g = some game) :
      Trail permit g t turns u
  /-- A step that makes a call on the game. -/
  | call {turns : List Turn} {s u : Tournament} (htrail : Trail permit g t turns s)
      (hstep : Step permit s u) {call : Call} {game next : Game} (hgame : s.game? g = some game)
      (hcall : game.Becomes call next) (hnext : u.game? g = some next) :
      Trail permit g t (call.noted turns next.turn) u

theorem Leads.exists_trail (hleads : Leads permit t s) (g : GameId) :
    ∃ turns, Trail permit g t turns s := by
  induction hleads with
  | refl => exact ⟨[], .start⟩
  | @tail s u _ hstep ih =>
      obtain ⟨turns, htrail⟩ := ih
      cases hnext : u.game? g with
      | none => exact ⟨turns, htrail.aside hstep fun game hgame => by simp [hnext] at hgame⟩
      | some next =>
          rcases hstep.game?_cases hnext with hsame | ⟨game, hgame, call, effects, hcall, _⟩
          · refine ⟨turns, htrail.aside hstep fun game hgame => ?_⟩
            rwa [← hnext.symm.trans hgame]
          · exact ⟨_, htrail.call hstep hgame (Game.becomes_of_on_eq_ok hcall) hnext⟩

/-- A new game and two players for it; nobody acts by itself. -/
structure IsStage (r : Tournament) (h : GameId) (rules : Rules) (attacker defender : PlayerId) :
    Prop where
  exists_game?_eq : ∃ echo, r.game? h = some (.new rules echo)
  role?_attacker : r.role? attacker = some .attacker
  role?_defender : r.role? defender = some .defender
  lines_eq_nil : ∀ p, r.lines p = []

def rehearse (r : Tournament) (h : GameId) (plays : List (Role × Move)) : Tournament :=
  r.run (plays.map fun play => .play h play.1 play.2)

@[simp] theorem rehearse_nil (r : Tournament) (h : GameId) : r.rehearse h [] = r := rfl

theorem rehearse_append_singleton (r : Tournament) (h : GameId) (plays : List (Role × Move))
    (role : Role) (move : Move) :
    r.rehearse h (plays ++ [(role, move)]) = ((r.rehearse h plays).play h role move).2 := by
  rw [rehearse, List.map_append, run_append]
  rfl

theorem lines_rehearse (hlines : ∀ p, r.lines p = []) (h : GameId)
    (plays : List (Role × Move)) : ∀ p, (r.rehearse h plays).lines p = [] := by
  induction plays generalizing r with
  | nil => exact hlines
  | cons play rest ih =>
      have hleads : Leads anyCall r (r.serve (.play h play.1 play.2)).2 :=
        leads_serve r.scriptsWithin_anyCall trivial
      exact ih (hleads.lines_eq_nil hlines)

theorem play_of_lines_eq_nil (hlines : ∀ p, r.lines p = []) (hgame : r.game? h = some game)
    {role : Role} {move : Move} {effects : List Effect}
    (hplay : game.play role move = .ok (next, effects)) :
    (r.play h role move).1 = .ok () ∧ (r.play h role move).2.game? h = some next := by
  have hset : ∀ p, (r.setGame h next).lines p = [] := hlines
  have hcall : (Call.play role move).on game = .ok (next, effects) := hplay
  rw [play_of_eq_ok hgame hplay,
    carryOut_of_lines_eq_nil _ h hset (Game.isOrderly_of_on_eq_ok hcall)]
  refine ⟨rfl, ?_⟩
  rw [game?_heedAll, game?_setGame_of_eq_some hgame, if_pos rfl]

/-- To play a game again is to ask another game for the moves on record. Every move is
accepted, the turns of the other game are those that were noted, and in the end it is a
twin. -/
structure Rehearses (r : Tournament) (h : GameId) (game : Game) (turns : List Turn) : Prop where
  play_eq_ok : ∀ before role move after, game.record.plays = before ++ (role, move) :: after →
    ((r.rehearse h before).play h role move).1 = .ok ()
  turns_eq : (game.record.plays.inits.map fun before =>
    ((r.rehearse h before).game? h).map Game.turn) = turns.map some
  exists_twin : ∃ copy, (r.rehearse h game.record.plays).game? h = some copy ∧
    copy.stopped = false ∧ game.IsTwin copy

namespace Rehearses

theorem congr (hsame : r.Rehearses h game turns) (hrules : next.rules = game.rules)
    (hphase : next.phase = game.phase) (hturn : next.turn = game.turn)
    (hrecord : next.record = game.record) : r.Rehearses h next turns := by
  obtain ⟨copy, hcopy, hstopped, htwin⟩ := hsame.exists_twin
  rw [← hrecord] at hcopy
  refine ⟨?_, ?_, copy, hcopy, hstopped, htwin.congr hrules hphase hturn hrecord⟩
  · rw [hrecord]
    exact hsame.play_eq_ok
  · rw [hrecord]
    exact hsame.turns_eq

theorem moved (hsame : r.Rehearses h game turns) (hlines : ∀ p, r.lines p = []) {role : Role}
    {move : Move} (hphase : game.phase = .toMove role) (hmove : move ∈ game.choices role) :
    r.Rehearses h ((game.moved role move).handOver role.opponent).1
      (turns ++ [((game.moved role move).handOver role.opponent).1.turn]) := by
  obtain ⟨copy, hcopy, hstopped, htwin⟩ := hsame.exists_twin
  obtain ⟨follower, effects, hplay, hfollows, hgoes⟩ :=
    htwin.exists_play_eq_ok hstopped hphase hmove
  obtain ⟨haccepts, hafter⟩ := play_of_lines_eq_nil (lines_rehearse hlines h _) hcopy hplay
  rw [← rehearse_append_singleton] at hafter
  have hplays : ((game.moved role move).handOver role.opponent).1.record.plays =
      game.record.plays ++ [(role, move)] := by
    rw [Game.plays_handOver, Game.plays_moved]
  refine ⟨fun before other made after hsplit => ?_, ?_, follower, hplays ▸ hafter, hgoes, hfollows⟩
  · rw [hplays] at hsplit
    rcases split_append_singleton hsplit with ⟨rfl, hlast⟩ | ⟨rest, hrest⟩
    · obtain ⟨rfl, rfl⟩ := Prod.mk.inj hlast
      exact haccepts
    · exact hsame.play_eq_ok before other made rest hrest
  · rw [hplays, List.inits_append, List.map_append, hsame.turns_eq, List.map_append]
    simp [hafter, hfollows.turn_eq]

theorem started {copy : Game} (hcopy : r.game? h = some (copy.fresh.handOver .attacker).1)
    (hstopped : copy.stopped = false) (hrules : copy.rules = game.rules) :
    r.Rehearses h (game.fresh.handOver .attacker).1 [(game.fresh.handOver .attacker).1.turn] := by
  have hplays : (game.fresh.handOver .attacker).1.record.plays = [] :=
    game.fresh.plays_handOver .attacker
  have htwin := Game.isTwin_started hrules
  refine ⟨fun before role move after hsplit => ?_, ?_, _, hplays ▸ hcopy, ?_, htwin⟩
  · rw [hplays] at hsplit
    exact absurd hsplit.symm (by simp)
  · rw [hplays]
    simpa [hcopy] using htwin.turn_eq
  · rw [Game.stopped_handOver]
    exact hstopped

/-- A started game can be played again on another that has been started over the same rules,
unless it was broken off. -/
theorem of_trail (htrail : Trail permit g t turns s)
    (hnew : ∀ game, t.game? g = some game → game.phase = .unstarted) {copy : Game}
    (hcopy : r.game? h = some (copy.fresh.handOver .attacker).1)
    (hstopped : copy.stopped = false) (hlines : ∀ p, r.lines p = [])
    (hgame : s.game? g = some game) (hrules : copy.rules = game.rules)
    (hstarted : game.phase ≠ .unstarted) (hgoes : ∀ reason, game.phase ≠ .aborted reason) :
    r.Rehearses h game turns := by
  induction htrail generalizing game with
  | start => exact absurd (hnew game hgame) hstarted
  | aside _ _ hsame ih => exact ih (hsame game hgame) hrules hstarted hgoes
  | call _ _ hbefore hcall hnext ih =>
      obtain rfl := Option.some.inj (hnext.symm.trans hgame)
      cases hcall with
      | seated attacker defender =>
          exact (ih hbefore hrules hstarted hgoes).congr rfl rfl rfl rfl
      | started =>
          rw [Game.rules_handOver] at hrules
          exact .started hcopy hstopped hrules
      | moved role move _ hphase hmove =>
          rw [Game.rules_handOver] at hrules
          refine (ih hbefore hrules ?_ fun reason => ?_).moved hlines hphase hmove
          · simp [hphase]
          · simp [hphase]
      | stopped => exact (ih hbefore hrules hstarted hgoes).congr rfl rfl rfl rfl
      | aborted fault => exact absurd rfl (hgoes fault.message)

end Rehearses

theorem of_changeBy (hlines : ∀ p, r.lines p = []) (hgame : r.game? h = some game)
    {call : Call} {effects : List Effect} (hcall : call.on game = .ok (next, effects)) :
    (r.changeBy r.performer h fun game => call.on game).1 = .ok () ∧
      (∀ p, (r.changeBy r.performer h fun game => call.on game).2.lines p = []) ∧
      (r.changeBy r.performer h fun game => call.on game).2.game? h = some next := by
  have hafter := game?_changeBy hlines hgame hcall
  rw [changeBy_of_lines_eq_nil hlines hgame hcall] at hafter ⊢
  refine ⟨rfl, fun p => List.suffix_nil.1 ?_, hafter⟩
  have hset : (r.setGame h next).lines p = [] := hlines p
  exact hset ▸ lines_heedAll_isSuffix _ h effects p

theorem IsStage.exists_seat_eq {rules : Rules} {attacker defender : PlayerId}
    (hstage : r.IsStage h rules attacker defender) :
    ∃ echo, r.game? h = some (.new rules echo) ∧
      r.seat h attacker defender = (.ok (), r.setGame h
        { Game.new rules echo with attacker := some attacker, defender := some defender }) := by
  obtain ⟨echo, hnew⟩ := hstage.exists_game?_eq
  obtain ⟨first, hfirst, hattacks⟩ := Option.map_eq_some_iff.1 hstage.role?_attacker
  obtain ⟨second, hsecond, hdefends⟩ := Option.map_eq_some_iff.1 hstage.role?_defender
  have hseat : r.seat h attacker defender = r.changeBy r.performer h fun game =>
      (Call.seat (attacker, .attacker) (defender, .defender)).on game := by
    simp only [seat, hfirst, hsecond, hattacks, hdefends]
    rfl
  have hseated : (Call.seat (attacker, .attacker) (defender, .defender)).on (.new rules echo) =
      .ok ({ Game.new rules echo with attacker := some attacker, defender := some defender }, []) :=
    rfl
  refine ⟨echo, hnew, ?_⟩
  rw [hseat, changeBy_of_lines_eq_nil hstage.lines_eq_nil hnew hseated]
  rfl

theorem IsStage.exists_started {rules : Rules} {attacker defender : PlayerId}
    (hstage : r.IsStage h rules attacker defender) :
    (r.seat h attacker defender).1 = .ok () ∧
      ((r.seat h attacker defender).2.start h).1 = .ok () ∧
      (∀ p, ((r.seat h attacker defender).2.start h).2.lines p = []) ∧
      ∃ copy : Game, copy.rules = rules ∧ copy.stopped = false ∧
        ((r.seat h attacker defender).2.start h).2.game? h =
          some (copy.fresh.handOver .attacker).1 := by
  obtain ⟨echo, hnew, hseat⟩ := hstage.exists_seat_eq
  obtain ⟨copy, effects, hcopy, hrules, hstopped, hstart⟩ : ∃ copy effects,
      { Game.new rules echo with attacker := some attacker, defender := some defender } = copy ∧
        copy.rules = rules ∧ copy.stopped = false ∧
        Call.start.on copy = .ok ((copy.fresh.handOver .attacker).1, effects) :=
    ⟨_, _, rfl, rfl, rfl, rfl⟩
  rw [hseat, hcopy]
  have hlines : ∀ p, (r.setGame h copy).lines p = [] := hstage.lines_eq_nil
  obtain ⟨hstarts, hstill, hstarted⟩ := of_changeBy hlines
    ((game?_setGame_of_eq_some hnew copy h).trans (if_pos rfl)) hstart
  exact ⟨rfl, hstarts, hstill, copy, hrules, hstopped, hstarted⟩

theorem exists_game?_rehearse_append (plays : List (Role × Move)) {role : Role} {move : Move}
    (hlines : ∀ p, r.lines p = []) (hgame : (r.rehearse h plays).game? h = some game)
    (hstopped : game.stopped = false) (hphase : game.phase = .toMove role)
    (hmove : move ∈ game.choices role)
    (hreply : game.rules.choices move.next role.opponent ≠ []) :
    ∃ next, (r.rehearse h (plays ++ [(role, move)])).game? h = some next ∧
      next.rules = game.rules ∧ next.stopped = false ∧ next.phase = .toMove role.opponent ∧
      next.turn.node = move.next ∧ next.record.plays = game.record.plays ++ [(role, move)] := by
  have hnode : (game.moved role move).turn.node = move.next := by
    rw [Game.turn_moved, Turn.node_advance]
  have hopen : (game.moved role move).choices role.opponent ≠ [] := by
    rwa [Game.choices, hnode]
  obtain ⟨heading, haccept⟩ := game.exists_accept_eq role move
  have hplay := Game.play_eq_ok_iff.2 ⟨hstopped, hphase, hmove, haccept⟩
  obtain ⟨_, hplayed⟩ := play_of_lines_eq_nil (lines_rehearse hlines h plays) hgame hplay
  rw [← rehearse_append_singleton] at hplayed
  rw [Game.handOver_eq_of_ne_nil hopen] at hplayed
  exact ⟨_, hplayed, rfl, hstopped, rfl, hnode, Game.plays_moved game role move⟩

theorem IsStage.exists_answered {rules : Rules} {attacker defender : PlayerId}
    (hstage : r.IsStage h rules attacker defender) (attack defence : Move)
    (hattack : attack ∈ rules.choices rules.root .attacker)
    (hdefence : defence ∈ rules.choices attack.next .defender)
    (hgoes : rules.choices defence.next .attacker ≠ []) :
    ∃ game, game.rules = rules ∧
      game.record.plays = [(.attacker, attack), (.defender, defence)] ∧
      ((((r.seat h attacker defender).2.start h).2.play h .attacker attack).2.play h .defender
        defence).2.game? h = some game := by
  obtain ⟨_, _, hlines, copy, rfl, hstopped, hcopy⟩ := hstage.exists_started
  have hopen : copy.fresh.choices .attacker ≠ [] := List.ne_nil_of_mem hattack
  rw [Game.handOver_eq_of_ne_nil hopen] at hcopy
  obtain ⟨first, hfirst, hrules, hruns, hphase, hnode, hplays⟩ :=
    exists_game?_rehearse_append [] hlines hcopy hstopped rfl hattack
      (List.ne_nil_of_mem hdefence)
  have hanswer : defence ∈ first.choices .defender := by
    rwa [Game.choices, hrules, hnode]
  obtain ⟨game, hgame, hsame, _, _, _, hall⟩ := exists_game?_rehearse_append _ hlines hfirst
    hruns hphase hanswer (by rwa [hrules])
  refine ⟨game, hsame.trans hrules, ?_, hgame⟩
  rw [hall, hplays]
  rfl

theorem isStage_arranged (rules : Rules) (echo : Bool) (delay : UInt64)
    (defence attack : RandomSource) (notices : Array Notice) :
    (arranged rules echo delay defence attack notices).IsStage 0 rules 1 0 :=
  ⟨⟨echo, rfl⟩, rfl, rfl, lines_arranged rules echo delay defence attack notices⟩

/-- A game that has been started and was not broken off can be played again from its record:
on any stage for the same rules the game there is started and asked for the moves on record,
and it accepts all of them, has the turns that the game has had since its last start, and
ends with the same entries and in the same phase. This is so whatever has been asked of the
tournament, whether the game has been stopped or not. -/
theorem rehearses_of_visits (hfresh : t.IsFresh) (hvisits : t.Visits anyCall s)
    (hgame : s.game? g = some game) (hstarted : game.phase ≠ .unstarted)
    (hgoes : ∀ reason, game.phase ≠ .aborted reason) {attacker defender : PlayerId}
    (hstage : r.IsStage h game.rules attacker defender) :
    (r.seat h attacker defender).1 = .ok () ∧
      ((r.seat h attacker defender).2.start h).1 = .ok () ∧
      (∃ turns, Trail anyCall g t turns s) ∧
      ∀ turns, Trail anyCall g t turns s →
        ((r.seat h attacker defender).2.start h).2.Rehearses h game turns := by
  obtain ⟨hseats, hstarts, hlines, copy, hrules, hstopped, hcopy⟩ := hstage.exists_started
  refine ⟨hseats, hstarts, (hvisits.leads t.scriptsWithin_anyCall).exists_trail g,
    fun turns htrail => .of_trail htrail (fun first hfirst => ?_) hcopy hstopped hlines hgame
      hrules hstarted hgoes⟩
  obtain ⟨rules, echo, rfl⟩ := hfresh.exists_eq_new g first hfirst
  rfl

/-- The game of the bout with two people. -/
def practice : Tournament :=
  { bout with players := #[.human .attacker .first, .human .defender .second] }

theorem isStage_practice : practice.IsStage 0 exchange 0 1 where
  exists_game?_eq := ⟨false, rfl⟩
  role?_attacker := rfl
  role?_defender := rfl
  lines_eq_nil p := by
    rcases p with _ | _ | p
    · rfl
    · rfl
    · simp [lines, player?, practice]

/-- The bout that two automated players have finished is played again by two people. -/
theorem rehearses_bout :
    ∃ s game turns, bout.Visits anyCall s ∧ s.game? 0 = some game ∧
      game.phase = .finished .attacker ∧ game.record.plays.length = 3 ∧
      Trail anyCall 0 bout turns s ∧
      ((practice.seat 0 0 1).2.start 0).2.Rehearses 0 game turns := by
  have hvisits : bout.Visits anyCall _ := Visits.start.run [.seat 0 0 1, .start 0, .advance 15]
    ⟨fun _ _ _ _ => trivial, trivial, trivial, trivial⟩
  have hview : ((bout.run [.seat 0 0 1, .start 0, .advance 15]).game? 0).map
      (fun game => (game.phase, game.record.plays.length)) = some (.finished .attacker, 3) := by
    decide +kernel
  obtain ⟨game, hgame, hfields⟩ := Option.map_eq_some_iff.1 hview
  obtain ⟨hphase, hlength⟩ := Prod.mk.inj hfields
  have hrules : some game.rules = some exchange := by
    rw [← Option.map_some, ← hgame]
    rfl
  obtain ⟨_, _, ⟨turns, htrail⟩, hsame⟩ := rehearses_of_visits isFresh_bout hvisits hgame
    (by simp [hphase]) (by simp [hphase]) (Option.some.inj hrules ▸ isStage_practice)
  exact ⟨_, game, turns, hvisits, hgame, hphase, hlength, htrail, hsame turns htrail⟩

end Tournament

end BisimPlay
