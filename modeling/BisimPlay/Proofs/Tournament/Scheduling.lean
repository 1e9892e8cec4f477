import BisimPlay.Proofs.Game.Decisions
import BisimPlay.Proofs.Tournament.Coherence

/-!
# Decisions are pending when they should be

Where an automated player is seated in one game only and nobody else moves for its role, it
has a decision pending exactly while the game is not stopped and its role holds the turn. So
a game does not stall while an automated player holds the turn, it has at most one decision
pending, and the game accepts whatever a decision comes to among the choices of its player.

The invariant has two halves. `IsAttuned` says that a decision for the game is always one
that the game waits for; `IsScheduled` adds that a decision the game waits for is pending.
A call on the game establishes the second half afresh, whereas a call on another game has
to leave alone the automated players who are seated in this one.
-/

namespace BisimPlay

namespace Tournament

variable {permit : Permit} {t s : Tournament} {g : GameId} {own : PlayerId → Prop}
  {p : PlayerId}

/-- Calls that leave a game to its own automated players: they sit nowhere else and nobody
else sits there, no move comes from outside for the role of one of them, and the game is
not broken off from outside. -/
def leavesAlone (g : GameId) (own : PlayerId → Prop) : Permit
  | t, h, .seat attacker defender =>
      (t.role? attacker.1 = some attacker.2 ∧ t.role? defender.1 = some defender.2) ∧
        (t.isAutomated attacker.1 = true → (own attacker.1 ↔ h = g)) ∧
        (t.isAutomated defender.1 = true → (own defender.1 ↔ h = g))
  | t, h, .play role _ =>
      h = g → ∀ game p, t.game? g = some game → game.seated role = some p →
        t.isAutomated p = false
  | _, h, .abort _ => h ≠ g
  | _, _, .start | _, _, .stop => True

/-- Players sit in games under their own roles, and the automated players of a game are its
own. -/
def IsSeated (g : GameId) (own : PlayerId → Prop) (t : Tournament) : Prop :=
  ∀ h game role p, t.game? h = some game → game.seated role = some p →
    t.role? p = some role ∧ (t.isAutomated p = true → (own p ↔ h = g))

/-- A decision for a game is by one of its own players, who holds the turn there and has
been told the choices. -/
structure IsAttuned (g : GameId) (own : PlayerId → Prop) (t : Tournament) : Prop where
  isSeated : t.IsSeated g own
  own_iff : ∀ p decision, t.decision? p = some decision → (own p ↔ decision.game = g)
  holdsTurn : ∀ game p decision, t.game? g = some game → t.decision? p = some decision →
    decision.game = g → game.stopped = false ∧ ∃ role, game.phase = .toMove role ∧
      game.seated role = some p ∧ decision.choices = game.choices role

/-- In addition, an automated player that holds the turn has a decision pending. -/
structure IsScheduled (g : GameId) (own : PlayerId → Prop) (t : Tournament) : Prop
    extends IsAttuned g own t where
  isAwaited : ∀ game role p, t.game? g = some game → game.stopped = false →
    game.phase = .toMove role → game.seated role = some p → t.isAutomated p = true →
      ∃ decision, t.decision? p = some decision

theorem isAutomated_of_decision?_eq_some {decision : Decision}
    (h : t.decision? p = some decision) : t.isAutomated p = true := by
  obtain ⟨player, hplayer, hpending⟩ := decision?_eq_some_iff.1 h
  rw [isAutomated, hplayer, Option.any_some]
  by_contra hmanual
  rw [player.pending?_eq_none_of_not_isAutomated (by simpa using hmanual)] at hpending
  exact absurd hpending (by simp)

theorem IsAttuned.mono (h : t.IsAttuned g own)
    (hgames : ∀ h game, s.game? h = some game → t.game? h = some game)
    (hnatures : ∀ p, s.nature? p = t.nature? p)
    (hdecisions : ∀ p decision, s.decision? p = some decision →
      t.decision? p = some decision) : s.IsAttuned g own where
  isSeated other game role p hgame hseated := by
    rw [role?_of_nature? (hnatures p), isAutomated_of_nature? (hnatures p)]
    exact h.isSeated other game role p (hgames other game hgame) hseated
  own_iff p decision hpending := h.own_iff p decision (hdecisions p decision hpending)
  holdsTurn game p decision hgame hpending :=
    h.holdsTurn game p decision (hgames g game hgame) (hdecisions p decision hpending)

theorem IsSeated.heedAll (h : t.IsSeated g own) {other : GameId} {call : Call}
    {game next : Game} {effects : List Effect} (hgame : t.game? other = some game)
    (houtcome : game.Outcome next call effects)
    (hseat : ∀ attacker defender, call = .seat attacker defender →
      leavesAlone g own t other call) :
    ((t.setGame other next).heedAll other effects).IsSeated g own := by
  intro k found role p hfound hseated
  have hnature : ((t.setGame other next).heedAll other effects).nature? p = t.nature? p :=
    nature?_heedAll _ _ _ _
  rw [role?_of_nature? hnature, isAutomated_of_nature? hnature]
  rw [game?_heedAll, game?_setGame_of_eq_some hgame] at hfound
  split at hfound
  · next heq =>
      subst heq
      obtain rfl := Option.some.inj hfound
      have hkept (hseats : ∀ other, next.seated other = game.seated other) :
          t.role? p = some role ∧ (t.isAutomated p = true → (own p ↔ other = g)) :=
        h other game role p hgame ((hseats role).symm.trans hseated)
      cases houtcome with
      | seated attacker defender hattacker hdefender _ hnext =>
          obtain ⟨⟨hfirst, hsecond⟩, hown, hother⟩ := hseat attacker defender rfl
          rw [hattacker] at hfirst
          rw [hdefender] at hsecond
          rw [hnext] at hseated
          cases role with
          | attacker =>
              obtain rfl := Option.some.inj hseated
              exact ⟨hfirst, hown⟩
          | defender =>
              obtain rfl := Option.some.inj hseated
              exact ⟨hsecond, hother⟩
      | prompted _ _ _ hseats => exact hkept hseats
      | dismissed _ _ hseats => exact hkept hseats
      | closed _ _ hseats => exact hkept hseats
  · exact h k found role p hfound hseated

theorem exists_decision?_heedAll {call : Call} {game next : Game} {effects : List Effect}
    {role : Role} (houtcome : game.Outcome next call effects)
    (hstopped : next.stopped = false) (hphase : next.phase = .toMove role)
    (hseated : next.seated role = some p) (hautomated : t.isAutomated p = true) :
    ∃ decision, (t.heedAll g effects).decision? p = some decision := by
  have hturn : next.phase.toMove? = some role := by
    rw [hphase]
    rfl
  cases houtcome with
  | seated attacker defender _ _ hclosed hnext =>
      rw [hnext] at hturn
      exact absurd (hclosed.symm.trans hturn) (by simp)
  | prompted _ heading given hseats _ hgiven =>
      obtain rfl := Phase.toMove.inj (hgiven.symm.trans hphase)
      rw [hseats] at hseated
      rw [hseated]
      obtain ⟨due, hdue⟩ := exists_decision?_heedAll_prompt t g heading
        (next.choices given) hautomated
      exact ⟨_, hdue⟩
  | dismissed _ _ _ hclosed =>
      rcases hclosed with hclosed | hclosed
      · exact absurd (hstopped.symm.trans hclosed) (by simp)
      · exact absurd (hclosed.symm.trans hturn) (by simp)
  | closed _ _ _ hclosed => exact absurd (hstopped.symm.trans hclosed) (by simp)

/-- A call on the game schedules it afresh, provided that no decision for it is left when
a move is made. -/
theorem IsAttuned.isScheduled_heedAll (h : t.IsAttuned g own) {call : Call}
    {game next : Game} {effects : List Effect} (hgame : t.game? g = some game)
    (hcall : call.on game = .ok (next, effects))
    (hseat : ∀ attacker defender, call = .seat attacker defender → leavesAlone g own t g call)
    (hidle : ∀ role move, call = .play role move → ∀ p decision,
      t.decision? p = some decision → decision.game ≠ g) :
    ((t.setGame g next).heedAll g effects).IsScheduled g own := by
  have houtcome := Game.outcome_of_on_eq_ok hcall
  have hafter : ((t.setGame g next).heedAll g effects).game? g = some next := by
    rw [game?_heedAll, game?_setGame_of_eq_some hgame, if_pos rfl]
  -- decisions that the game waited for before are gone
  have hcases {q : PlayerId} {decision : Decision}
      (hpending : ((t.setGame g next).heedAll g effects).decision? q = some decision) :
      (∃ role due, decision = ⟨due, g, next.choices role⟩ ∧ t.isAutomated q = true ∧
        game.seated role = some q ∧ next.seated role = some q ∧
        next.stopped = false ∧ next.phase = .toMove role) ∨
      (t.decision? q = some decision ∧ decision.game ≠ g) := by
    rcases decision?_heedAll_cases houtcome hpending with
      ⟨role, due, hdecision, hautomated, hseated, hseats, hstopped, hphase⟩ | ⟨hold, hkept⟩
    · exact .inl ⟨role, due, hdecision, hautomated, hseated, (hseats role).trans hseated,
        hstopped, hphase⟩
    · refine .inr ⟨hold, fun heq => ?_⟩
      obtain ⟨hstopped, role, hphase, hseated, _⟩ := h.holdsTurn game q decision hgame hold heq
      obtain ⟨⟨mover, move, hplay, _⟩, _⟩ := hkept hstopped (by rw [hphase]; rfl)
        ((game.mem_players_iff q).2 ⟨role, hseated⟩)
      exact hidle mover move hplay q decision hold heq
  refine ⟨⟨h.isSeated.heedAll hgame houtcome hseat, fun q decision hpending => ?_,
    fun found q decision hfound hpending heq => ?_⟩,
    fun found role q hfound hstopped hphase hseated hautomated => ?_⟩
  · rcases hcases hpending with ⟨role, due, rfl, hautomated, hseated, _⟩ | ⟨hold, _⟩
    · exact (h.isSeated g game role q hgame hseated).2 hautomated
    · exact h.own_iff q decision hold
  · obtain rfl := Option.some.inj (hafter.symm.trans hfound)
    rcases hcases hpending with ⟨role, due, rfl, _, _, hseated, hstopped, hphase⟩ | ⟨_, hne⟩
    · exact ⟨hstopped, role, hphase, hseated, rfl⟩
    · exact absurd heq hne
  · obtain rfl := Option.some.inj (hafter.symm.trans hfound)
    rw [isAutomated_of_nature? (nature?_heedAll _ _ _ _)] at hautomated
    exact exists_decision?_heedAll houtcome hstopped hphase hseated hautomated

theorem decision?_heedAll_of_not_mem {call : Call} {game next : Game}
    {effects : List Effect} (houtcome : game.Outcome next call effects)
    (hother : p ∉ game.players) : (t.heedAll g effects).decision? p = t.decision? p := by
  cases houtcome with
  | seated attacker defender => rfl
  | prompted _ heading role =>
      refine decision?_heedAll_prompt_of_ne _ _ _ _ _ _ fun hseated => ?_
      exact absurd ((game.mem_players_iff p).2 ⟨role, hseated⟩) hother
  | dismissed _ heading => rw [decision?_heedAll_dismissals, if_neg hother]
  | closed heading => exact decision?_heedAll_tell t g heading p

theorem IsScheduled.heedAll_of_ne (h : t.IsScheduled g own) {other : GameId}
    (hne : other ≠ g) {call : Call} {game next : Game} {effects : List Effect}
    (hgame : t.game? other = some game) (hcall : call.on game = .ok (next, effects))
    (hseat : ∀ attacker defender, call = .seat attacker defender →
      leavesAlone g own t other call) :
    ((t.setGame other next).heedAll other effects).IsScheduled g own := by
  have houtcome := Game.outcome_of_on_eq_ok hcall
  have hgames : ((t.setGame other next).heedAll other effects).game? g = t.game? g := by
    rw [game?_heedAll, game?_setGame_of_eq_some hgame, if_neg hne]
  refine ⟨⟨h.isSeated.heedAll hgame houtcome hseat, fun q decision hpending => ?_,
    fun found q decision hfound hpending heq => ?_⟩,
    fun found role q hfound hstopped hphase hseated hautomated => ?_⟩
  · rcases decision?_heedAll_cases houtcome hpending with
      ⟨role, due, rfl, hautomated, hseated, _⟩ | ⟨hold, _⟩
    · exact (h.isSeated other game role q hgame hseated).2 hautomated
    · exact h.own_iff q decision hold
  · rcases decision?_heedAll_cases houtcome hpending with ⟨role, due, rfl, _⟩ | ⟨hold, _⟩
    · exact absurd heq hne
    · exact h.holdsTurn found q decision (hgames.symm.trans hfound) hold heq
  · rw [hgames] at hfound
    rw [isAutomated_of_nature? (nature?_heedAll _ _ _ _)] at hautomated
    obtain ⟨decision, hpending⟩ :=
      h.isAwaited found role q hfound hstopped hphase hseated hautomated
    refine ⟨decision, (decision?_heedAll_of_not_mem houtcome fun hmem => ?_).trans hpending⟩
    obtain ⟨place, hplace⟩ := (game.mem_players_iff q).1 hmem
    have hown := (h.isSeated g found role q hfound hseated).2 hautomated
    exact hne (((h.isSeated other game place q hgame hplace).2 hautomated).1 (hown.2 rfl))

theorem IsScheduled.mono (h : t.IsScheduled g own)
    (hgames : ∀ h game, s.game? h = some game → t.game? h = some game)
    (hnatures : ∀ p, s.nature? p = t.nature? p)
    (hdecisions : ∀ p, s.decision? p = t.decision? p) : s.IsScheduled g own where
  toIsAttuned := h.toIsAttuned.mono hgames hnatures fun p _ => (hdecisions p).symm.trans
  isAwaited game role p hgame hstopped hphase hseated hautomated := by
    rw [isAutomated_of_nature? (hnatures p)] at hautomated
    rw [hdecisions]
    exact h.isAwaited game role p (hgames g game hgame) hstopped hphase hseated hautomated

theorem IsScheduled.mono_of_ne (h : t.IsScheduled g own) {q : PlayerId}
    {decision : Decision} (hpending : t.decision? q = some decision)
    (hne : decision.game = g → t.game? g = none)
    (hgames : ∀ h, s.game? h = t.game? h) (hnatures : ∀ p, s.nature? p = t.nature? p)
    (hdecisions : ∀ p, s.decision? p = if q = p then none else t.decision? p) :
    s.IsScheduled g own where
  toIsAttuned := by
    refine h.toIsAttuned.mono (fun _ _ => (hgames _).symm.trans) hnatures fun p other hother => ?_
    rw [hdecisions] at hother
    exact (Option.ite_none_left_eq_some.1 hother).2
  isAwaited game role p hgame hstopped hphase hseated hautomated := by
    rw [hgames] at hgame
    rw [isAutomated_of_nature? (hnatures p)] at hautomated
    have hown := (h.isSeated g game role p hgame hseated).2 hautomated
    rw [hdecisions, if_neg]
    · exact h.isAwaited game role p hgame hstopped hphase hseated hautomated
    · rintro rfl
      rw [hne ((h.own_iff q decision hpending).1 (hown.2 rfl))] at hgame
      exact absurd hgame (by simp)

theorem IsAttuned.eq_of_decision? (h : t.IsAttuned g own) {game : Game}
    (hgame : t.game? g = some game) {q : PlayerId} {first second : Decision}
    (hfirst : t.decision? p = some first) (hfor : first.game = g)
    (hsecond : t.decision? q = some second) (hsame : second.game = g) : p = q := by
  obtain ⟨_, role, hphase, hseated, _⟩ := h.holdsTurn game p first hgame hfirst hfor
  obtain ⟨_, other, hother, hplace, _⟩ := h.holdsTurn game q second hgame hsecond hsame
  obtain rfl := Phase.toMove.inj (hphase.symm.trans hother)
  exact Option.some.inj (hseated.symm.trans hplace)

theorem IsAttuned.ne_of_play (h : t.IsAttuned g own) {role : Role} {move : Move}
    (hpermit : leavesAlone g own t g (.play role move)) {game next : Game}
    {effects : List Effect} (hgame : t.game? g = some game)
    (hplay : game.play role move = .ok (next, effects)) {decision : Decision}
    (hpending : t.decision? p = some decision) : decision.game ≠ g := by
  intro heq
  obtain ⟨_, holder, hphase, hseated, _⟩ := h.holdsTurn game p decision hgame hpending heq
  obtain ⟨_, hmoved, _⟩ := Game.play_eq_ok_iff.1 hplay
  obtain rfl := Phase.toMove.inj (hphase.symm.trans hmoved)
  have hmanual := hpermit rfl game p hgame hseated
  rw [isAutomated_of_decision?_eq_some hpending] at hmanual
  exact absurd hmanual (by simp)

theorem IsScheduled.letGo (h : t.IsScheduled g own) (q : PlayerId) :
    (t.modifyPlayer q (·.holding [])).IsScheduled g own :=
  h.mono (fun _ _ => id) (t.nature?_holding q · []) (t.decision?_holding q · [])

/-- A decision that is taken schedules its own game afresh and leaves any other game
scheduled. -/
theorem IsScheduled.heard_heedAll (h : t.IsScheduled g own) {q : PlayerId}
    {decision : Decision} (hpending : t.decision? q = some decision) {call : Call}
    {game next : Game} {effects : List Effect} (hgame : t.game? decision.game = some game)
    (hcall : call.on game = .ok (next, effects))
    (hseat : ∀ attacker defender, call ≠ .seat attacker defender) (source : RandomSource)
    (notices : List Notice) :
    (((t.heard q decision source notices).setGame decision.game next).heedAll
      decision.game effects).IsScheduled g own := by
  have hheld : (t.heard q decision source notices).game? decision.game = some game :=
    (game?_heard t q decision source notices decision.game).trans hgame
  by_cases heq : decision.game = g
  · have hkept {p : PlayerId} {other : Decision}
        (hother : (t.heard q decision source notices).decision? p = some other) :
        q ≠ p ∧ t.decision? p = some other := by
      rw [decision?_heard] at hother
      exact Option.ite_none_left_eq_some.1 hother
    have hattuned : (t.heard q decision source notices).IsAttuned g own :=
      h.toIsAttuned.mono (fun k _ => (game?_heard t q decision source notices k).symm.trans)
        (nature?_heard t q · decision source notices) fun _ _ hother => (hkept hother).2
    rw [heq] at hgame hheld ⊢
    refine hattuned.isScheduled_heedAll hheld hcall
      (fun _ _ hsame => absurd hsame (hseat _ _)) fun _ _ _ p other hother hsame => ?_
    obtain ⟨hne, hold⟩ := hkept hother
    exact hne (h.toIsAttuned.eq_of_decision? hgame hpending heq hold hsame)
  · exact IsScheduled.heedAll_of_ne (h.mono_of_ne hpending (fun hsame => absurd hsame heq)
      (game?_heard t q decision source notices) (nature?_heard t q · decision source notices)
      (decision?_heard t q · decision source notices)) heq hheld hcall
      fun _ _ hsame => absurd hsame (hseat _ _)

theorem IsScheduled.step (h : t.IsScheduled g own)
    (hstep : Step (leavesAlone g own) t s) : s.IsScheduled g own := by
  cases hstep with
  | tell notice => exact h.mono (fun _ _ => id) (fun _ => rfl) fun _ => rfl
  | note q event => exact h.mono (fun _ _ => id) (fun _ => rfl) fun _ => rfl
  | wait time => exact h.mono (fun _ _ => id) (fun _ => rfl) fun _ => rfl
  | release other =>
      exact h.mono (fun _ _ => game?_of_release_eq_some) (fun _ => rfl) fun _ => rfl
  | letGo q other hgame => exact h.letGo q
  | call other call hpermit hgame hcall =>
      have hseat : ∀ attacker defender, call = .seat attacker defender →
          leavesAlone g own t other call := fun _ _ _ => hpermit
      by_cases heq : other = g
      · subst heq
        refine h.toIsAttuned.isScheduled_heedAll hgame hcall hseat ?_
        rintro role move rfl p decision hpending
        exact h.toIsAttuned.ne_of_play hpermit hgame hcall hpending
      · exact h.heedAll_of_ne heq hgame hcall hseat
  | choose q other move hplayer hmove hpermit hgame hcall =>
      by_cases heq : other = g
      · subst heq
        refine (h.letGo q).toIsAttuned.isScheduled_heedAll hgame hcall
          (fun _ _ hseat => absurd hseat (by simp)) fun _ _ _ p decision hpending => ?_
        rw [decision?_holding] at hpending
        exact h.toIsAttuned.ne_of_play hpermit hgame hcall hpending
      · exact (h.letGo q).heedAll_of_ne heq hgame hcall fun _ _ hseat => absurd hseat (by simp)
  | decide q decision hplayer hconduct hgame _ hcall =>
      exact h.heard_heedAll (decision?_of_conduct_eq hplayer hconduct) hgame hcall
        (Game.answer_ne_seat _ _ _) _ _
  | lapse q decision hpending hgame =>
      exact h.mono_of_ne hpending (fun hsame => hsame ▸ hgame) (fun _ => rfl)
        (nature?_modifyPlayer _ q · _ fun player => player.nature_withoutDecision)
        (decision?_withoutDecision _ q ·)

theorem IsScheduled.leads (h : t.IsScheduled g own)
    (hleads : Leads (leavesAlone g own) t s) : s.IsScheduled g own := by
  induction hleads with
  | refl => exact h
  | tail _ hstep ih => exact ih.step hstep

theorem IsFresh.isScheduled (h : t.IsFresh) (g : GameId) (own : PlayerId → Prop) :
    t.IsScheduled g own := by
  have hseats {k : GameId} {game : Game} (hgame : t.game? k = some game) (role : Role) :
      game.seated role = none := by
    obtain ⟨rules, echo, rfl⟩ := h.exists_eq_new k game hgame
    cases role with
    | attacker => rfl
    | defender => rfl
  have hnone {p : PlayerId} {decision : Decision} (hpending : t.decision? p = some decision) :
      False := by
    rw [h.decision?_eq_none] at hpending
    exact absurd hpending (by simp)
  refine ⟨⟨fun k game role p hgame hseated => ?_, fun p decision hpending => ?_,
    fun game p decision hgame hpending => ?_⟩, fun game role p hgame _ _ hseated => ?_⟩
  · exact absurd ((hseats hgame role).symm.trans hseated) (by simp)
  · exact (hnone hpending).elim
  · exact (hnone hpending).elim
  · exact absurd ((hseats hgame role).symm.trans hseated) (by simp)

theorem scriptsWithin_of_lines_eq_nil (permit : Permit) (h : ∀ p, t.lines p = []) :
    t.ScriptsWithin permit := fun p line hline => by
  rw [h p] at hline
  exact absurd hline List.not_mem_nil

theorem game?_take (hlines : ∀ p, t.lines p = []) {decision : Decision} {player : Player}
    {game next : Game} {effects : List Effect} {delay : UInt64} {source : RandomSource}
    {verdict : Verdict} (hplayer : t.player? p = some player)
    (hconduct : player.conduct = .automated delay source (some decision))
    (hgame : t.game? decision.game = some game)
    (hverdict : verdict =
      game.rules.verdict game.turn.node player.role decision.choices source)
    (hcall : (game.answer player.role verdict.move).on game = .ok (next, effects)) :
    (t.take p decision).game? decision.game = some next := by
  have hheld (notices : List Notice) :
      (t.heard p decision verdict.source notices).game? decision.game = some game :=
    (game?_heard t p decision _ _ _).trans hgame
  rw [take_of_lines_eq_nil hlines hplayer hconduct hgame hverdict hcall, game?_heedAll,
    game?_setGame_of_eq_some (hheld _), if_pos rfl]

/-- An automated player who sits in one game only, and for whose role nobody else moves, has
a decision pending when and only when the game is not stopped and its role holds the turn.
Thus a game whose turn is held by such a player does not stall, no two decisions are pending
for it, and it accepts each move that a decision may come to among the choices of its
player; otherwise the decision fails, and the game is broken off. -/
theorem decision?_isSome_iff_of_visits (hfresh : t.IsFresh) (hscripts : ∀ p, t.lines p = [])
    (hvisits : t.Visits (leavesAlone g own) s) {game : Game} (hgame : s.game? g = some game) :
    (∀ role p, game.seated role = some p → s.isAutomated p = true →
      ((s.decision? p).isSome = true ↔ game.stopped = false ∧ game.phase = .toMove role)) ∧
    (∀ role p, game.seated role = some p → s.isAutomated p = true →
      game.stopped = false → game.phase = .toMove role →
        ∃ due, s.decision? p = some ⟨due, g, game.choices role⟩) ∧
    (∀ p q first second, s.decision? p = some first → first.game = g →
      s.decision? q = some second → second.game = g → p = q ∧ first = second) ∧
    (∀ p decision, s.decision? p = some decision → decision.game = g →
      ∃ player delay source verdict, s.player? p = some player ∧
        player.conduct = .automated delay source (some decision) ∧
        verdict = game.rules.verdict game.turn.node player.role decision.choices source ∧
        (∀ move ∈ decision.choices, verdict.move = .ok move →
          ∃ next effects, game.play player.role move = .ok (next, effects) ∧
            (s.take p decision).game? g = some next) ∧
        (∀ fault, verdict.move = .error fault →
          (s.take p decision).game? g = some (game.abort fault).1) ∧
        (game.rules.PicksAmongChoices →
          ∀ move, verdict.move = .ok move → move ∈ decision.choices)) := by
  have hleads := hvisits.leads (scriptsWithin_of_lines_eq_nil _ hscripts)
  have hscheduled := (hfresh.isScheduled g own).leads hleads
  have hlines (p : PlayerId) : s.lines p = [] :=
    List.suffix_nil.1 (hscripts p ▸ hleads.lines_isSuffix p)
  have hawaited (role : Role) (p : PlayerId) (hseated : game.seated role = some p)
      (hautomated : s.isAutomated p = true) (hstopped : game.stopped = false)
      (hphase : game.phase = .toMove role) :
      ∃ due, s.decision? p = some ⟨due, g, game.choices role⟩ := by
    obtain ⟨⟨due, other, choices⟩, hpending⟩ :=
      hscheduled.isAwaited game role p hgame hstopped hphase hseated hautomated
    have hown := (hscheduled.isSeated g game role p hgame hseated).2 hautomated
    obtain rfl : other = g := (hscheduled.own_iff p _ hpending).1 (hown.2 rfl)
    obtain ⟨_, holder, hholder, _, hchoices⟩ :=
      hscheduled.holdsTurn game p _ hgame hpending rfl
    obtain rfl := Phase.toMove.inj (hphase.symm.trans hholder)
    exact ⟨due, by rw [hpending, ← hchoices]⟩
  refine ⟨fun role p hseated hautomated => ⟨fun hsome => ?_, fun hturn => ?_⟩, hawaited,
    fun p q first second hfirst hfor hsecond hsame => ?_, fun p decision hpending heq => ?_⟩
  · obtain ⟨decision, hpending⟩ := Option.isSome_iff_exists.1 hsome
    obtain ⟨hrole, hown⟩ := hscheduled.isSeated g game role p hgame hseated
    have hfor := (hscheduled.own_iff p _ hpending).1 ((hown hautomated).2 rfl)
    obtain ⟨hstopped, holder, hphase, hplace, _⟩ :=
      hscheduled.holdsTurn game p decision hgame hpending hfor
    have hsame := (hscheduled.isSeated g game holder p hgame hplace).1
    obtain rfl := Option.some.inj (hrole.symm.trans hsame)
    exact ⟨hstopped, hphase⟩
  · obtain ⟨due, hpending⟩ := hawaited role p hseated hautomated hturn.1 hturn.2
    rw [hpending]
    rfl
  · obtain rfl := hscheduled.toIsAttuned.eq_of_decision? hgame hfirst hfor hsecond hsame
    exact ⟨rfl, Option.some.inj (hfirst.symm.trans hsecond)⟩
  · obtain ⟨player, hplayer, hdecision⟩ := decision?_eq_some_iff.1 hpending
    obtain ⟨delay, source, hconduct⟩ := player.exists_conduct_eq hdecision
    obtain ⟨hstopped, role, hphase, hseated, hchoices⟩ :=
      hscheduled.holdsTurn game p decision hgame hpending heq
    have hrole := (hscheduled.isSeated g game role p hgame hseated).1
    rw [role?, hplayer] at hrole
    obtain rfl := Option.some.inj hrole
    subst heq
    refine ⟨player, delay, source, _, hplayer, hconduct, rfl, fun move hmove hverdict => ?_,
      fun fault hverdict => ?_, fun hpicks move => hpicks.mem_of_verdict_eq_ok⟩
    · obtain ⟨next, effects, hplay⟩ : ∃ next effects,
          game.play player.role move = .ok (next, effects) :=
        ⟨_, _, Game.play_eq_ok_iff.2 ⟨hstopped, hphase, hchoices ▸ hmove, rfl⟩⟩
      have hcall : (game.answer player.role (.ok move)).on game = .ok (next, effects) := by
        rw [Game.answer_of_play_eq_ok hplay]
        exact hplay
      rw [← hverdict] at hcall
      exact ⟨next, effects, hplay, game?_take hlines hplayer hconduct hgame rfl hcall⟩
    · have hcall : (game.answer player.role (.error fault)).on game =
          .ok ((game.abort fault).1, (game.abort fault).2) := rfl
      rw [← hverdict] at hcall
      exact game?_take hlines hplayer hconduct hgame rfl hcall

theorem decision?_isSome_iff_duel :
    ∃ s game, duel.Visits (leavesAlone 0 fun _ => True) s ∧ s.game? 0 = some game ∧
      game.phase = .toMove .attacker ∧ (s.decision? 0).isSome = true ∧
      (s.decision? 1).isSome = false ∧
      ∃ due, s.decision? 0 = some ⟨due, 0, game.choices .attacker⟩ := by
  have hlines (p : PlayerId) : duel.lines p = [] := by
    rcases p with _ | _ | p
    · rfl
    · rfl
    · simp [lines, player?, duel]
  have hstart : duel.Visits (leavesAlone 0 fun _ => True) duel := .start
  have hvisits := (hstart.serve (.seat 0 0 1) fun _ _ hfirst hsecond =>
    ⟨⟨hfirst, hsecond⟩, fun _ => iff_of_true trivial rfl, fun _ =>
      iff_of_true trivial rfl⟩).serve (.start 0) trivial
  obtain ⟨hpending, hawaited, _⟩ :=
    decision?_isSome_iff_of_visits isFresh_duel hlines hvisits (g := 0) rfl
  refine ⟨_, _, hvisits, rfl, rfl, (hpending .attacker 0 rfl rfl).2 ⟨rfl, rfl⟩, ?_,
    hawaited .attacker 0 rfl rfl rfl rfl⟩
  refine Bool.eq_false_iff.2 fun hsome => ?_
  have hphase := ((hpending .defender 1 rfl rfl).1 hsome).2
  exact absurd (Phase.toMove.inj hphase) (by decide)

end Tournament

end BisimPlay
