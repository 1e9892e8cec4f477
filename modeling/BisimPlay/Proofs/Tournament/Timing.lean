import BisimPlay.Proofs.Game.Standing
import BisimPlay.Proofs.Tournament.Scheduling

/-!
# The moves of automated players do not depend on time

Two automated players who are left to their game come to the same moves however long they think,
whenever the clock moves on and whatever else goes on in the tournament. Each of them draws from
its own source only, once for each decision that is left to chance, and no decision that was
dropped or has gone stale is ever taken. So the game always stands as it does after some number
of decisions, `Standing.after`, and so do the sources: `IsAfter` says this, `IsAfter.step` is the
one step, and two runs of the game are compared by way of it.
-/

namespace BisimPlay

namespace Tournament

variable {t s u v : Tournament} {g h : GameId} {player other : Role → PlayerId}
  {rules : Rules} {source : Role → RandomSource} {n : Nat}

def takesPart (player : Role → PlayerId) (p : PlayerId) : Prop := ∃ role, player role = p

/-- A game is left to two players: nobody else is seated there and they sit nowhere else, no
moves come from outside, and the game is neither broken off from outside nor started again. In
other games anything goes. -/
def unattended (g : GameId) (player : Role → PlayerId) : Permit
  | t, h, .seat attacker defender =>
      (t.role? attacker.1 = some attacker.2 ∧ t.role? defender.1 = some defender.2) ∧
        (takesPart player attacker.1 ↔ h = g) ∧ (takesPart player defender.1 ↔ h = g)
  | t, h, .start => h = g → ∀ game, t.game? g = some game → game.phase.isOver = false
  | _, h, .play _ _ | _, h, .abort _ => h ≠ g
  | _, _, .stop => True

/-- A game is left to two players in the same way, but it may be started again once it is over. -/
def reserved (g : GameId) (player : Role → PlayerId) : Permit
  | _, _, .start => True
  | t, h, call => unattended g player t h call

theorem reserved_of_unattended (t : Tournament) (h : GameId) (call : Call)
    (hcall : unattended g player t h call) : reserved g player t h call := by
  cases call with
  | start => trivial
  | seat | play | stop | abort => exact hcall

theorem leavesAlone_of_reserved (t : Tournament) (h : GameId) (call : Call)
    (hcall : reserved g player t h call) : leavesAlone g (takesPart player) t h call := by
  cases call with
  | seat attacker defender =>
      obtain ⟨hroles, hattacker, hdefender⟩ := hcall
      exact ⟨hroles, fun _ => hattacker, fun _ => hdefender⟩
  | start => trivial
  | play role move => exact fun heq => absurd heq hcall
  | stop => trivial
  | abort fault => exact hcall

/-- The players of a game are automated, each of its own role, and nobody else is seated in the
game. -/
structure IsPaired (g : GameId) (player : Role → PlayerId) (t : Tournament) : Prop where
  isScheduled : t.IsScheduled g (takesPart player)
  takesPart_of_seated : ∀ game role p, t.game? g = some game → game.seated role = some p →
    takesPart player p
  role?_eq : ∀ role, t.role? (player role) = some role
  isAutomated : ∀ role, t.isAutomated (player role) = true

namespace IsPaired

theorem player_eq (ht : t.IsPaired g player) {p : PlayerId} {role : Role}
    (hpart : takesPart player p) (hrole : t.role? p = some role) : player role = p := by
  obtain ⟨own, rfl⟩ := hpart
  rw [← Option.some.inj ((ht.role?_eq own).symm.trans hrole)]

theorem player_injective (ht : t.IsPaired g player) {role own : Role}
    (h : player role = player own) : role = own := by
  have hrole := ht.role?_eq role
  rw [h, ht.role?_eq own] at hrole
  exact (Option.some.inj hrole).symm

theorem step (ht : t.IsPaired g player) (hstep : Step (reserved g player) t s) :
    s.IsPaired g player where
  isScheduled := ht.isScheduled.step (hstep.mono leavesAlone_of_reserved)
  takesPart_of_seated next role p hnext hseated := by
    rcases hstep.game?_cases hnext with hsame | ⟨game, hgame, call, effects, hcall, hcause⟩
    · exact ht.takesPart_of_seated next role p hsame hseated
    · have hkept (hseats : next.seated role = game.seated role) : takesPart player p :=
        ht.takesPart_of_seated game role p hgame (hseats.symm.trans hseated)
      cases Game.becomes_of_on_eq_ok hcall with
      | seated attacker defender _ hturn =>
          rcases hcause with ⟨_, hattacker, hdefender⟩ | ⟨q, decision, hpending, hfor⟩
          · cases role with
            | attacker => exact Option.some.inj hseated ▸ hattacker.2 rfl
            | defender => exact Option.some.inj hseated ▸ hdefender.2 rfl
          · -- a decision is pending only while a turn is open, and then no seats are filled
            obtain ⟨_, holder, hphase, _⟩ :=
              ht.isScheduled.holdsTurn game q decision hgame hpending hfor
            rw [hphase] at hturn
            exact absurd hturn (by simp [Phase.toMove?])
      | started => exact hkept (Game.seated_handOver _ _ _)
      | moved mover move => exact hkept (Game.seated_handOver _ _ _)
      | stopped => exact hkept rfl
      | aborted fault => exact hkept rfl
  role?_eq role := (role?_of_nature? (hstep.nature?_eq _)).trans (ht.role?_eq role)
  isAutomated role := (isAutomated_of_nature? (hstep.nature?_eq _)).trans (ht.isAutomated role)

theorem exists_holder (ht : t.IsPaired g player) {p : PlayerId} {decision : Decision} {game : Game}
    (hgame : t.game? g = some game) (hpending : t.decision? p = some decision)
    (hfor : decision.game = g) :
    ∃ role, game.stopped = false ∧ game.phase = .toMove role ∧ player role = p ∧
      t.role? p = some role ∧ decision.choices = game.choices role := by
  obtain ⟨hstopped, role, hphase, hseated, hchoices⟩ :=
    ht.isScheduled.holdsTurn game p decision hgame hpending hfor
  obtain ⟨hrole, _⟩ := ht.isScheduled.isSeated g game role p hgame hseated
  exact ⟨role, hstopped, hphase,
    ht.player_eq (ht.takesPart_of_seated game role p hgame hseated) hrole, hrole, hchoices⟩

theorem lines_eq_nil (ht : t.IsPaired g player) (role : Role) : t.lines (player role) = [] := by
  obtain ⟨found, hfound, hautomated⟩ := (Option.any_eq_true _ _).1 (ht.isAutomated role)
  rw [lines, hfound]
  exact found.script_eq_nil_of_isAutomated hautomated

theorem isSilent (ht : t.IsPaired g player) : t.IsSilent g := by
  intro game role p hgame hseated
  obtain ⟨own, rfl⟩ := ht.takesPart_of_seated game role p hgame hseated
  exact ht.lines_eq_nil own

end IsPaired

theorem isDiscipline_isPaired (g : GameId) (player : Role → PlayerId) :
    IsDiscipline (unattended g player) (IsPaired g player) where
  step _ _ ht hstep := ht.step (hstep.mono reserved_of_unattended)
  obeys t h ht := by
    by_cases heq : h = g
    · exact .inr (heq ▸ ht.isSilent)
    · refine .inl fun p line _ act _ call hmakes s => ?_
      cases act with
      | play position =>
          obtain ⟨role, move, rfl⟩ := hmakes
          exact heq
      | playForOpponent =>
          obtain ⟨role, move, rfl⟩ := hmakes
          exact heq
      | stop =>
          obtain rfl := hmakes
          trivial
      | abort =>
          obtain ⟨fault, rfl⟩ := hmakes
          exact heq
      | start =>
          obtain rfl := hmakes
          exact fun hsame => absurd hsame heq

theorem isDiscipline_isPaired_reserved (g : GameId) (player : Role → PlayerId) :
    IsDiscipline (reserved g player) (IsPaired g player) where
  step _ _ ht hstep := ht.step hstep
  obeys t h ht := ((isDiscipline_isPaired g player).obeys t h ht).imp
    (fun hacts p line hline act hact call hmakes s =>
      reserved_of_unattended s h call (hacts p line hline act hact call hmakes s)) id

/-- A game of given rules stands as it does after a number of decisions, or it has not been
started yet, and its players have drawn from their sources what these decisions have drawn. -/
structure IsAfter (g : GameId) (player : Role → PlayerId) (rules : Rules)
    (source : Role → RandomSource) (n : Nat) (t : Tournament) : Prop where
  source?_eq : ∀ role,
    t.source? (player role) = some (((Standing.first rules source).after n).source role)
  isTwin : ∀ game, t.game? g = some game →
    (game.phase = .unstarted ∧ n = 0 ∧ game.rules = rules ∧ game.record.plays = []) ∨
      ((Standing.first rules source).after n).game.IsTwin game

namespace IsAfter

theorem mono (ht : t.IsAfter g player rules source n)
    (hgame : ∀ game, s.game? g = some game → t.game? g = some game)
    (hsource : ∀ role, s.source? (player role) = t.source? (player role)) :
    s.IsAfter g player rules source n where
  source?_eq role := (hsource role).trans (ht.source?_eq role)
  isTwin game hfound := ht.isTwin game (hgame game hfound)

theorem plays_eq (ht : t.IsAfter g player rules source n) {game : Game}
    (hgame : t.game? g = some game) :
    game.record.plays = ((Standing.first rules source).after n).game.record.plays := by
  rcases ht.isTwin game hgame with ⟨_, rfl, _, hplays⟩ | htwin
  · rw [hplays, Standing.after_zero, Standing.plays_first]
  · rw [Record.plays, Record.plays, htwin.entries_eq]

theorem isTwin_of_ne_unstarted (ht : t.IsAfter g player rules source n) {game : Game}
    (hgame : t.game? g = some game) (hstarted : game.phase ≠ .unstarted) :
    ((Standing.first rules source).after n).game.IsTwin game :=
  (ht.isTwin game hgame).resolve_left fun hnew => hstarted hnew.1

theorem isTwin_of_isOver (ht : t.IsAfter g player rules source n) {game : Game}
    (hgame : t.game? g = some game) (hover : game.phase.isOver = true) :
    ((Standing.first rules source).after n).game.IsTwin game :=
  ht.isTwin_of_ne_unstarted hgame fun hphase => by simp [hphase, Phase.isOver] at hover

theorem isTwin_of_becomes (ht : t.IsAfter g player rules source n) {game next : Game}
    {call : Call} (hgame : t.game? g = some game) (hpermit : unattended g player t g call)
    (hcall : game.Becomes call next) :
    (next.phase = .unstarted ∧ n = 0 ∧ next.rules = rules ∧ next.record.plays = []) ∨
      ((Standing.first rules source).after n).game.IsTwin next := by
  cases hcall with
  | seated attacker defender =>
      exact (ht.isTwin game hgame).imp id fun htwin =>
        ⟨htwin.rules_eq, htwin.phase_eq, htwin.turn_eq, htwin.entries_eq⟩
  | stopped =>
      exact (ht.isTwin game hgame).imp id fun htwin =>
        ⟨htwin.rules_eq, htwin.phase_eq, htwin.turn_eq, htwin.entries_eq⟩
  | started _ hturn =>
      have hopen := hpermit rfl game hgame
      have hphase : game.phase = .unstarted :=
        (game.phase.eq_unstarted_or_exists_eq_toMove hopen).resolve_right fun ⟨role, hrole⟩ => by
          rw [hrole] at hturn
          exact absurd hturn (by simp [Phase.toMove?])
      rcases ht.isTwin game hgame with ⟨_, rfl, hrules, _⟩ | htwin
      · exact .inr (Game.isTwin_started hrules)
      · exact absurd (htwin.phase_eq.symm.trans hphase)
          (Standing.phase_after_first_ne_unstarted rules source n)
  | moved role move => exact absurd rfl hpermit
  | aborted fault => exact absurd rfl hpermit

theorem verdict_eq (ht : t.IsAfter g player rules source n) (hpaired : t.IsPaired g player)
    {p : PlayerId} {decision : Decision} {found : Player} {game : Game} {delay : UInt64}
    {drawn : RandomSource} (hfound : t.player? p = some found)
    (hconduct : found.conduct = .automated delay drawn (some decision))
    (hgame : t.game? g = some game) (hfor : decision.game = g) :
    game.stopped = false ∧ game.phase = .toMove found.role ∧ player found.role = p ∧
      ((Standing.first rules source).after n).game.IsTwin game ∧
      ((Standing.first rules source).after n).verdict found.role =
        game.rules.verdict game.turn.node found.role decision.choices drawn := by
  obtain ⟨role, hstopped, hphase, hp, hrole, hchoices⟩ := hpaired.exists_holder hgame
    (decision?_of_conduct_eq hfound hconduct) hfor
  rw [role?, hfound] at hrole
  obtain rfl := Option.some.inj hrole
  -- the turn is open, so the game has been started
  have htwin := ht.isTwin_of_ne_unstarted hgame (by rw [hphase]; simp)
  have hdrawn : ((Standing.first rules source).after n).source found.role = drawn := by
    have hsource := ht.source?_eq found.role
    rw [hp, source?, hfound, Option.bind_some, Player.source?, hconduct] at hsource
    exact (Option.some.inj hsource).symm
  refine ⟨hstopped, hphase, hp, htwin, ?_⟩
  rw [hchoices, Standing.verdict, hdrawn, htwin.rules_eq, htwin.turn_eq,
    Game.choices_congr htwin.rules_eq htwin.turn_eq]

/-- A decision for the game is the next one. -/
theorem decided (ht : t.IsAfter g player rules source n) (hpaired : t.IsPaired g player)
    {p : PlayerId} {decision : Decision} {found : Player} {game next : Game}
    {effects : List Effect} {delay : UInt64} {drawn : RandomSource} {verdict : Verdict}
    (hfound : t.player? p = some found)
    (hconduct : found.conduct = .automated delay drawn (some decision))
    (hgame : t.game? g = some game) (hfor : decision.game = g)
    (hverdict : verdict = game.rules.verdict game.turn.node found.role decision.choices drawn)
    (hcall : (game.answer found.role verdict.move).on game = .ok (next, effects))
    (notices : List Notice) :
    (((t.heard p decision verdict.source notices).setGame g next).heedAll g effects).IsAfter g
      player rules source (n + 1) := by
  obtain ⟨hstopped, hphase, hp, htwin, hsame⟩ := ht.verdict_eq hpaired hfound hconduct hgame hfor
  have hnext : (Standing.first rules source).after (n + 1) =
      ⟨((Standing.first rules source).after n).game.decided found.role verdict.move,
        Function.update ((Standing.first rules source).after n).source found.role
          verdict.source⟩ := by
    rw [Standing.after_succ, Standing.next_of_phase_eq (htwin.phase_eq.symm.trans hphase), hsame,
      hverdict]
  refine ⟨fun role => ?_, fun after hafter => .inr ?_⟩
  · simp only [source?_heedAll, source?_setGame, source?_heard, hnext, ht.source?_eq role]
    by_cases heq : role = found.role
    · rw [heq, if_pos hp.symm, Option.map_some, Function.update_self]
    · rw [if_neg fun hplayer => heq (hpaired.player_injective (hp.trans hplayer)).symm,
        Function.update_of_ne heq]
  · rw [game?_heedAll, game?_setGame_of_eq_some ((game?_heard t p decision _ _ _).trans hgame),
      if_pos rfl] at hafter
    obtain rfl := Option.some.inj hafter
    rw [hnext, Game.eq_decided_of_on_answer_eq_ok hcall]
    exact htwin.decided (Standing.stopped_after_first rules source n) hstopped _ _

theorem step (ht : t.IsAfter g player rules source n) (hpaired : t.IsPaired g player)
    (hstep : Step (unattended g player) t s) : ∃ m, s.IsAfter g player rules source m := by
  cases hstep with
  | tell notice => exact ⟨n, ht.mono (fun _ => id) fun _ => rfl⟩
  | note q event => exact ⟨n, ht.mono (fun _ => id) fun _ => rfl⟩
  | wait time => exact ⟨n, ht.mono (fun _ => id) fun _ => rfl⟩
  | release k => exact ⟨n, ht.mono (fun _ => game?_of_release_eq_some) fun _ => rfl⟩
  | letGo q k _ => exact ⟨n, ht.mono (fun _ => id) fun _ => t.source?_holding q _ []⟩
  | @call k call game next effects hpermit hgame hcall =>
      refine ⟨n, fun role => (source?_heedAll _ _ _ _).trans (ht.source?_eq role),
        fun after hafter => ?_⟩
      rw [game?_heedAll, game?_setGame_of_eq_some hgame] at hafter
      split at hafter
      · next heq =>
          subst heq
          obtain rfl := Option.some.inj hafter
          exact ht.isTwin_of_becomes hgame hpermit (Game.becomes_of_on_eq_ok hcall)
      · exact ht.isTwin after hafter
  | @choose q k move _ game next effects _ _ hpermit hgame hcall =>
      have hother : k ≠ g := hpermit
      refine ⟨n, ht.mono (fun after hafter => ?_) fun role =>
        (source?_heedAll _ _ _ _).trans (t.source?_holding q _ [])⟩
      rwa [game?_heedAll, game?_setGame_of_eq_some (t := t.modifyPlayer q _) hgame,
        if_neg hother] at hafter
  | @decide q decision found game next effects delay drawn verdict hfound hconduct hgame hverdict
      hcall =>
      by_cases heq : decision.game = g
      · obtain rfl := heq
        exact ⟨n + 1, ht.decided hpaired hfound hconduct hgame rfl hverdict hcall _⟩
      · have hpart := hpaired.isScheduled.own_iff q decision
          (decision?_of_conduct_eq hfound hconduct)
        refine ⟨n, ht.mono (fun after hafter => ?_) fun role => ?_⟩
        · rwa [game?_heedAll, game?_setGame_of_eq_some ((game?_heard t q decision _ _ _).trans
            hgame), if_neg heq, game?_heard] at hafter
        · refine (source?_heedAll _ _ _ _).trans ((source?_heard t q _ decision _ _).trans ?_)
          rw [if_neg]
          rintro rfl
          exact heq (hpart.1 ⟨role, rfl⟩)
  | lapse q decision _ _ =>
      exact ⟨n, ht.mono (fun _ => id) fun _ => source?_withoutDecision _ q _⟩

theorem leads (ht : t.IsAfter g player rules source n) (hpaired : t.IsPaired g player)
    (hleads : Leads (unattended g player) t s) : ∃ m, s.IsAfter g player rules source m := by
  induction hleads with
  | refl => exact ⟨n, ht⟩
  | tail hbefore hstep ih =>
      obtain ⟨m, hm⟩ := ih
      exact hm.step ((isDiscipline_isPaired g player).leads hpaired hbefore) hstep

end IsAfter

theorem IsFresh.isPaired (hfresh : t.IsFresh)
    (hplayers : ∀ role, ∃ color delay source,
      t.player? (player role) = some (.automated role color delay source)) :
    t.IsPaired g player where
  isScheduled := hfresh.isScheduled g _
  takesPart_of_seated game role p hgame hseated := by
    obtain ⟨rules, echo, rfl⟩ := hfresh.exists_eq_new g game hgame
    cases role with
    | attacker => exact absurd hseated (by simp [Game.seated, Game.new])
    | defender => exact absurd hseated (by simp [Game.seated, Game.new])
  role?_eq role := by
    obtain ⟨color, delay, source, hplayer⟩ := hplayers role
    rw [role?, hplayer]
    rfl
  isAutomated role := by
    obtain ⟨color, delay, source, hplayer⟩ := hplayers role
    rw [Tournament.isAutomated, hplayer]
    rfl

/-- A new game of given rules and two automated players for it who have not drawn yet. How long
they think is left open. -/
structure Awaits (g : GameId) (player : Role → PlayerId) (rules : Rules)
    (source : Role → RandomSource) (t : Tournament) : Prop where
  isFresh : t.IsFresh
  exists_game?_eq : ∃ echo, t.game? g = some (.new rules echo)
  exists_player?_eq : ∀ role, ∃ color delay,
    t.player? (player role) = some (.automated role color delay (source role))

namespace Awaits

theorem isPaired (ht : t.Awaits g player rules source) : t.IsPaired g player :=
  ht.isFresh.isPaired fun role =>
    let ⟨color, delay, hplayer⟩ := ht.exists_player?_eq role
    ⟨color, delay, source role, hplayer⟩

theorem isAfter (ht : t.Awaits g player rules source) : t.IsAfter g player rules source 0 where
  source?_eq role := by
    obtain ⟨color, delay, hplayer⟩ := ht.exists_player?_eq role
    rw [source?, hplayer]
    rfl
  isTwin game hgame := by
    obtain ⟨echo, hnew⟩ := ht.exists_game?_eq
    obtain rfl := Option.some.inj (hnew.symm.trans hgame)
    exact .inl ⟨rfl, rfl, rfl, rfl⟩

theorem exists_isAfter (ht : t.Awaits g player rules source)
    (hvisits : t.Visits (unattended g player) s) :
    ∃ n, s.IsAfter g player rules source n :=
  ht.isAfter.leads ht.isPaired
    ((isDiscipline_isPaired g player).leads_of_visits ht.isPaired hvisits)

end Awaits

/-- The moves of a game between two automated players do not depend on time. Two runs of a game
of the same rules, whose players start from the same sources, have recorded the same moves as
far as both have come: at any two moments the moves of one are the first moves of the other. If
both are over, they have ended in the same way and with the same record. This is so for any
times to think, however the clock moves on in either run, and whatever other games are played
meanwhile by other players. -/
theorem comparable_plays_of_visits (ht : t.Awaits g player rules source)
    (hu : u.Awaits h other rules source) (hs : t.Visits (unattended g player) s)
    (hv : u.Visits (unattended h other) v) {game copy : Game} (hgame : s.game? g = some game)
    (hcopy : v.game? h = some copy) :
    (game.record.plays <+: copy.record.plays ∨ copy.record.plays <+: game.record.plays) ∧
      (game.phase.isOver = true → copy.phase.isOver = true →
        copy.phase = game.phase ∧ copy.record.entries = game.record.entries) := by
  obtain ⟨n, hn⟩ := ht.exists_isAfter hs
  obtain ⟨m, hm⟩ := hu.exists_isAfter hv
  rw [hn.plays_eq hgame, hm.plays_eq hcopy]
  refine ⟨(Nat.le_total n m).imp (Standing.plays_isPrefix_after _)
    (Standing.plays_isPrefix_after _), fun hover hcopyOver => ?_⟩
  have htwin := hn.isTwin_of_isOver hgame hover
  have hcopyTwin := hm.isTwin_of_isOver hcopy hcopyOver
  have hsame : (Standing.first rules source).after n = (Standing.first rules source).after m :=
    Standing.after_eq_after (htwin.phase_eq ▸ Phase.toMove?_of_isOver _ hover)
      (hcopyTwin.phase_eq ▸ Phase.toMove?_of_isOver _ hcopyOver)
  rw [← hsame] at hcopyTwin
  exact ⟨hcopyTwin.phase_eq.trans htwin.phase_eq.symm,
    hcopyTwin.entries_eq.trans htwin.entries_eq.symm⟩

/-- Two games of an attack, an answer and an attack, one for two people and one for two automated
players, who take other times than those of the bout. -/
def hall : Tournament where
  now := 0
  games := #[.held (.new exchange true), .held (.new exchange false)]
  players := #[.human .attacker .first, .human .defender .second,
    .automated .attacker .first 9 (.ofSeed 0), .automated .defender .second 2 (.ofSeed 1)]
  notices := #[]
  diary := #[]

def seatsFrom (p : PlayerId) : Role → PlayerId
  | .attacker => p
  | .defender => p + 1

def seeds : Role → RandomSource
  | .attacker => .ofSeed 0
  | .defender => .ofSeed 1

theorem awaits_bout : bout.Awaits 0 (seatsFrom 0) exchange seeds :=
  ⟨isFresh_bout, ⟨false, rfl⟩, fun role => by cases role <;> exact ⟨_, _, rfl⟩⟩

theorem isFresh_hall : hall.IsFresh :=
  isFresh_of_games_eq [(exchange, true), (exchange, false)] rfl
    (by simp [hall, Player.automated, Player.human, Player.pending?])

theorem awaits_hall : hall.Awaits 1 (seatsFrom 2) exchange seeds :=
  ⟨isFresh_hall, ⟨false, rfl⟩, fun role => by cases role <;> exact ⟨_, _, rfl⟩⟩

theorem takesPart_seatsFrom_iff (p q : PlayerId) :
    takesPart (seatsFrom p) q ↔ q = p ∨ q = p + 1 := by
  constructor
  · rintro ⟨role, rfl⟩
    cases role with
    | attacker => exact .inl rfl
    | defender => exact .inr rfl
  · rintro (rfl | rfl)
    · exact ⟨.attacker, rfl⟩
    · exact ⟨.defender, rfl⟩

/-- In the hall the game ends later than in the bout and while another game is played, but it has
the same record, with the same of the two answers. -/
theorem comparable_plays_hall :
    ∃ s v game copy, bout.Visits (unattended 0 (seatsFrom 0)) s ∧
      hall.Visits (unattended 1 (seatsFrom 2)) v ∧ s.game? 0 = some game ∧
      v.game? 1 = some copy ∧ s.now = 15 ∧ v.now = 20 ∧ game.phase = .finished .attacker ∧
      game.record.plays.length = 3 ∧ copy.phase = game.phase ∧
      copy.record.entries = game.record.entries := by
  have hbout : bout.AdmitsAll (unattended 0 (seatsFrom 0)) [.seat 0 0 1, .start 0, .advance 15] :=
    ⟨fun _ _ hfirst hsecond => ⟨⟨hfirst, hsecond⟩, by simp [takesPart_seatsFrom_iff], by
      simp [takesPart_seatsFrom_iff]⟩, fun _ game hgame => by
        rw [← Option.some.inj hgame]
        rfl, trivial, trivial⟩
  have hhall : hall.AdmitsAll (unattended 1 (seatsFrom 2)) [.seat 1 2 3, .seat 0 0 1, .start 0,
      .start 1, .advance 10, .choose 0 0 0, .advance 10] :=
    ⟨fun _ _ hfirst hsecond => ⟨⟨hfirst, hsecond⟩, by simp [takesPart_seatsFrom_iff], by
      simp [takesPart_seatsFrom_iff]⟩, fun _ _ hfirst hsecond => ⟨⟨hfirst, hsecond⟩, by
        simp [takesPart_seatsFrom_iff], by simp [takesPart_seatsFrom_iff]⟩,
      fun heq => absurd heq (by decide), fun _ game hgame => by
        rw [← Option.some.inj hgame]
        rfl, trivial, fun _ _ _ _ => Nat.zero_ne_one, trivial, trivial⟩
  have hview : ((bout.run [.seat 0 0 1, .start 0, .advance 15]).game? 0).map
      (fun game => (game.phase, game.record.plays.length)) = some (.finished .attacker, 3) := by
    decide +kernel
  have hcopyView : ((hall.run [.seat 1 2 3, .seat 0 0 1, .start 0, .start 1, .advance 10,
      .choose 0 0 0, .advance 10]).game? 1).map (·.phase) = some (.finished .attacker) := by
    decide +kernel
  obtain ⟨game, hgame, hfields⟩ := Option.map_eq_some_iff.1 hview
  obtain ⟨hphase, hlength⟩ := Prod.mk.inj hfields
  obtain ⟨copy, hcopy, hcopyPhase⟩ := Option.map_eq_some_iff.1 hcopyView
  have hs := Visits.start.run _ hbout
  have hv := Visits.start.run _ hhall
  obtain ⟨_, hsame⟩ := comparable_plays_of_visits awaits_bout awaits_hall hs hv hgame hcopy
  obtain ⟨hphases, hentries⟩ := hsame (by rw [hphase]; rfl) (by rw [hcopyPhase]; rfl)
  exact ⟨_, _, game, copy, hs, hv, hgame, hcopy, rfl, rfl, hphase, hlength, hphases, hentries⟩

end Tournament

end BisimPlay
