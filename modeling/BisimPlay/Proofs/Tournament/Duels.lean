import BisimPlay.Proofs.Game.Progress
import BisimPlay.Proofs.Tournament.Scheduling

/-!
# Duels

In a duel a game is left to its two automated players. Whenever a role is to move there is a
decision to take, and a decision that is taken carries the game on.
-/

namespace BisimPlay

namespace Tournament

variable {t s : Tournament} {g : GameId} {p : PlayerId} {decision : Decision}
  {game next : Game} {call : Call} {effects : List Effect}

theorem earliest_eq_none_iff (list : List (PlayerId × Decision)) :
    earliest list = none ↔ list = [] := by
  cases list with
  | nil => simp
  | cons first rest =>
      unfold earliest
      split
      · simp
      · split <;> simp

theorem decision?_of_next?_eq_some (h : t.next? = some (p, decision)) :
    t.decision? p = some decision :=
  (t.mem_pending_iff p decision).1 (mem_of_earliest_eq_some h)

theorem exists_next?_eq_some (h : t.decision? p = some decision) :
    ∃ first, t.next? = some first := by
  refine Option.ne_none_iff_exists'.1 fun hnone => ?_
  have hmem := (t.mem_pending_iff p decision).2 h
  rw [(earliest_eq_none_iff t.pending).1 hnone] at hmem
  exact absurd hmem List.not_mem_nil

/-- Where nobody who is seated acts on a prompt, a call that is allowed comes to its effects. -/
theorem changeBy_of_isSilent (hsilent : t.IsSilent g) (hgame : t.game? g = some game)
    (hcall : call.on game = .ok (next, effects)) :
    t.changeBy t.performer g (fun game => call.on game) =
      (.ok (), (t.setGame g next).heedAll g effects) := by
  have hcarry : t.performer g effects (t.setGame g next) =
      (t.setGame g next).heedAll g effects := by
    refine carryOut_of_prompted_lines_eq_nil (t := t.setGame g next) _ g (fun p choices hmem => ?_)
      (Game.isOrderly_of_on_eq_ok hcall)
    obtain ⟨role, hseated⟩ := Game.exists_seated_of_prompt_mem hcall hmem
    exact hsilent game role p hgame hseated
  simp [changeBy, hgame, hcall, hcarry]

theorem changeBy_of_lines_eq_nil (hlines : ∀ p, t.lines p = []) (hgame : t.game? g = some game)
    (hcall : call.on game = .ok (next, effects)) :
    t.changeBy t.performer g (fun game => call.on game) =
      (.ok (), (t.setGame g next).heedAll g effects) :=
  changeBy_of_isSilent (fun _ _ p _ _ => hlines p) hgame hcall

theorem game?_changeBy (hlines : ∀ p, t.lines p = []) (hgame : t.game? g = some game)
    (hcall : call.on game = .ok (next, effects)) :
    (t.changeBy t.performer g (fun game => call.on game)).2.game? g = some next := by
  rw [changeBy_of_lines_eq_nil hlines hgame hcall, game?_heedAll,
    game?_setGame_of_eq_some hgame, if_pos rfl]

theorem IsCalm.changeBy (h : t.IsCalm) (hlines : ∀ p, t.lines p = [])
    (hgame : t.game? g = some game) (hcall : call.on game = .ok (next, effects))
    (habort : ∀ fault, call ≠ .abort fault) :
    (t.changeBy t.performer g (fun game => call.on game)).2.IsCalm := by
  rw [changeBy_of_lines_eq_nil hlines hgame hcall]
  refine IsCalm.heedAll (t := t.setGame g next) h g fun notice hnotice => ?_
  rw [Game.severity_of_on_eq_ok hcall habort hnotice]
  simp

/-- A game is left to its players, who are automated; nobody else acts. -/
structure IsDuel (g : GameId) (t : Tournament) : Prop where
  isScheduled : t.IsScheduled g fun _ => True
  lines_eq_nil : ∀ p, t.lines p = []
  isAutomated : ∀ p role, t.role? p = some role → t.isAutomated p = true

namespace IsDuel

theorem leads (h : t.IsDuel g) (hleads : Leads (leavesAlone g fun _ => True) t s) :
    s.IsDuel g where
  isScheduled := h.isScheduled.leads hleads
  lines_eq_nil := hleads.lines_eq_nil h.lines_eq_nil
  isAutomated p role hrole := by
    rw [role?_of_nature? (hleads.nature?_eq p)] at hrole
    rw [isAutomated_of_nature? (hleads.nature?_eq p)]
    exact h.isAutomated p role hrole

theorem visits (h : t.IsDuel g) (hvisits : t.Visits (leavesAlone g fun _ => True) s) :
    s.IsDuel g :=
  h.leads (hvisits.leads (scriptsWithin_of_lines_eq_nil _ h.lines_eq_nil))

theorem exists_next? (h : t.IsDuel g) (hgame : t.game? g = some game)
    (hcoherent : game.IsCoherent) (hstopped : game.stopped = false) {role : Role}
    (hphase : game.phase = .toMove role) : ∃ first, t.next? = some first := by
  obtain ⟨hattacker, hdefender, _⟩ := hcoherent.of_toMove role hphase
  have hseat : (game.seated role).isSome = true := by
    cases role with
    | attacker => exact hattacker
    | defender => exact hdefender
  obtain ⟨p, hseated⟩ := Option.isSome_iff_exists.1 hseat
  obtain ⟨hrole, _⟩ := h.isScheduled.isSeated g game role p hgame hseated
  obtain ⟨decision, hpending⟩ := h.isScheduled.isAwaited game role p hgame hstopped hphase
    hseated (h.isAutomated p role hrole)
  exact exists_next?_eq_some hpending

theorem exists_take_eq (h : t.IsDuel g) (hgame : t.game? g = some game)
    (hpending : t.decision? p = some decision) :
    ∃ role verdict next effects, game.phase = .toMove role ∧
      (∃ source, verdict =
        game.rules.verdict game.turn.node role (game.choices role) source) ∧
      (game.answer role verdict.move).on game = .ok (next, effects) ∧
      t.take p decision =
        (((t.heard p decision verdict.source (verdict.notices ++
          game.refusal role verdict.move)).setGame g next).heedAll g effects) := by
  have hfor := (h.isScheduled.own_iff p decision hpending).1 trivial
  obtain ⟨_, role, hphase, hseated, hchoices⟩ :=
    h.isScheduled.holdsTurn game p decision hgame hpending hfor
  obtain ⟨player, hplayer, hdecision⟩ := decision?_eq_some_iff.1 hpending
  obtain ⟨delay, source, hconduct⟩ := player.exists_conduct_eq hdecision
  obtain ⟨hrole, _⟩ := h.isScheduled.isSeated g game role p hgame hseated
  rw [role?, hplayer] at hrole
  obtain rfl := Option.some.inj hrole
  obtain ⟨next, effects, hcall, _⟩ := game.exists_on_answer_eq_ok player.role
    (game.rules.verdict game.turn.node player.role decision.choices source).move
  subst hfor
  exact ⟨player.role, _, next, effects, hphase, ⟨source, hchoices ▸ rfl⟩, hcall,
    take_of_lines_eq_nil h.lines_eq_nil hplayer hconduct hgame rfl hcall⟩

theorem take (h : t.IsDuel g) (hgame : t.game? g = some game)
    (hpending : t.decision? p = some decision) :
    (t.take p decision).IsDuel g ∧
      ∃ next, game.Decides next ∧ (t.take p decision).game? g = some next ∧
        ((∀ reason, next.phase ≠ .aborted reason) → game.rules.NeverErrs → t.IsCalm →
          (t.take p decision).IsCalm) := by
  refine ⟨h.visits (Visits.start.take p decision hpending), ?_⟩
  obtain ⟨role, verdict, next, effects, hphase, ⟨source, hverdict⟩, hcall, htake⟩ :=
    h.exists_take_eq hgame hpending
  have hheld (notices : List Notice) :
      (t.heard p decision verdict.source notices).game? g = some game :=
    (game?_heard t p decision _ _ _).trans hgame
  refine ⟨next, ⟨role, source, effects, hphase, hverdict ▸ hcall⟩, ?_, fun hgoes hrules hcalm => ?_⟩
  · rw [htake, game?_heedAll, game?_setGame_of_eq_some (hheld _), if_pos rfl]
  · obtain ⟨_, _, hanswer, ⟨fault, habort⟩ | ⟨move, hmove, hplay⟩⟩ :=
      game.exists_on_answer_eq_ok role verdict.move
    · rw [habort] at hcall
      obtain ⟨rfl, _⟩ := Prod.mk.inj (Except.ok.inj hcall)
      exact absurd rfl (hgoes fault.message)
    · have hrefusal : game.refusal role verdict.move = [] := by
        rw [hplay] at hcall
        have hcall : game.play role move = .ok (next, effects) := hcall
        rw [hmove, Game.refusal, hcall]
      rw [htake, hrefusal, List.append_nil]
      refine IsCalm.heedAll (t := (t.heard p decision _ _).setGame g next)
        (hcalm.heard p decision _ fun notice hnotice => ?_) g fun notice hnotice => ?_
      · rw [hverdict] at hnotice
        exact hrules _ _ notice (Rules.mem_attackNotices_of_mem_verdict hnotice)
      · rw [hplay] at hcall
        rw [Game.severity_of_on_eq_ok hcall (fun fault => by simp) hnotice]
        simp

end IsDuel

/-- A new game and two automated players, who are not yet seated. -/
def arranged (rules : Rules) (echo : Bool) (delay : UInt64) (defence attack : RandomSource)
    (notices : Array Notice) : Tournament where
  now := 0
  games := #[.held (.new rules echo)]
  players := #[.automated .defender .first delay defence,
    .automated .attacker .second delay attack]
  notices := notices
  diary := #[]

section Arranged

variable (rules : Rules) (echo : Bool) (delay : UInt64) (defence attack : RandomSource)
  (notices : Array Notice)

theorem isFresh_arranged : (arranged rules echo delay defence attack notices).IsFresh :=
  isFresh_of_games_eq [(rules, echo)] rfl (by simp [arranged, Player.automated, Player.pending?])

theorem lines_arranged (p : PlayerId) :
    (arranged rules echo delay defence attack notices).lines p = [] := by
  rcases p with _ | _ | p
  · rfl
  · rfl
  · simp [lines, player?, arranged]

theorem isDuel_arranged : (arranged rules echo delay defence attack notices).IsDuel 0 := by
  refine ⟨(isFresh_arranged rules echo delay defence attack notices).isScheduled 0 _,
    lines_arranged rules echo delay defence attack notices, fun p role hrole => ?_⟩
  rcases p with _ | _ | p
  · rfl
  · rfl
  · simp [role?, player?, arranged] at hrole

def seated : Tournament := ((arranged rules echo delay defence attack notices).seat 0 1 0).2

def started : Tournament := ((seated rules echo delay defence attack notices).start 0).2

theorem visits_seated : (arranged rules echo delay defence attack notices).Visits
    (leavesAlone 0 fun _ => True) (seated rules echo delay defence attack notices) :=
  Visits.start.serve (.seat 0 1 0) fun _ _ hfirst hsecond =>
    ⟨⟨hfirst, hsecond⟩, fun _ => iff_of_true trivial rfl, fun _ => iff_of_true trivial rfl⟩

theorem isDuel_seated : (seated rules echo delay defence attack notices).IsDuel 0 :=
  (isDuel_arranged rules echo delay defence attack notices).visits
    (visits_seated rules echo delay defence attack notices)

theorem isDuel_started : (started rules echo delay defence attack notices).IsDuel 0 :=
  (isDuel_seated rules echo delay defence attack notices).visits
    (Visits.start.serve (.start 0) trivial)

theorem exists_start_eq_ok : ∃ game effects,
    (seated rules echo delay defence attack notices).game? 0 = some game ∧
      Call.start.on game = .ok ((game.fresh.handOver .attacker).1, effects) ∧
      game.rules = rules ∧ game.stopped = false ∧
      game.attacker = some 1 ∧ game.defender = some 0 :=
  ⟨{ Game.new rules echo with attacker := some 1, defender := some 0 }, _, rfl, rfl, rfl, rfl,
    rfl, rfl⟩

theorem game?_started : ∃ game : Game, game.rules = rules ∧ game.stopped = false ∧
    game.attacker = some 1 ∧ game.defender = some 0 ∧
    (started rules echo delay defence attack notices).game? 0 =
      some (game.fresh.handOver .attacker).1 := by
  have hduel := isDuel_seated rules echo delay defence attack notices
  obtain ⟨game, effects, hgame, hstart, hrules, hstopped, hattacker, hdefender⟩ :=
    exists_start_eq_ok rules echo delay defence attack notices
  have hafter := game?_changeBy hduel.lines_eq_nil hgame hstart
  exact ⟨game, hrules, hstopped, hattacker, hdefender, hafter⟩

theorem isCalm_started (h : ∀ notice ∈ notices, notice.severity ≠ .error) :
    (started rules echo delay defence attack notices).IsCalm := by
  have hduel := isDuel_seated rules echo delay defence attack notices
  obtain ⟨game, effects, hgame, hstart, _⟩ :=
    exists_start_eq_ok rules echo delay defence attack notices
  have hcalm : (seated rules echo delay defence attack notices).IsCalm := h
  have hafter := hcalm.changeBy hduel.lines_eq_nil hgame hstart fun fault => by simp
  exact hafter

end Arranged

end Tournament

end BisimPlay
