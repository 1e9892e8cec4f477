import BisimPlay.Proofs.Game.Moments
import BisimPlay.Proofs.Tournament.Delays
import BisimPlay.Proofs.Tournament.Hands
import BisimPlay.Proofs.Tournament.Timing

/-!
# The moves of automated players keep to a schedule

Two automated players who are left to their game move in turns, and each move comes when its
player has thought for its time since the move before. So a game that was started at some moment
has its moves at fixed moments, `moment`, and how many have been made by some time follows from
how much time has gone by, `movesWithin`.

A run of requests may let time go by in many small portions or in a few large ones, in each of
which many decisions fall due. `moveTimes` lists the times at which moves were made on the way,
`IsTimed` is what holds throughout, and the main result says that the list is the schedule.
-/

namespace BisimPlay

namespace Tournament

def movesMade (g : GameId) (t : Tournament) : Nat :=
  ((t.game? g).map fun game => game.record.plays.length).getD 0

/-- The time at which a tournament has come from one state to the next, once for each move of a
game that was made. -/
def newMoves (g : GameId) (t s : Tournament) : List Nat :=
  List.replicate (s.movesMade g - t.movesMade g) s.now

def settleTimes (g : GameId) (time : Nat) : Nat → Tournament → List Nat
  | 0, _ => []
  | n + 1, t =>
    match t.next? with
    | none => []
    | some (p, decision) =>
      if decision.due ≤ time then
        t.newMoves g (t.take p decision) ++ settleTimes g time n (t.take p decision)
      else []

def serveTimes (g : GameId) (t : Tournament) : Request → List Nat
  | .advance duration =>
    settleTimes g (t.now + duration) (t.players.size * (duration + 1) * decisionsPerInstant) t
  | request => t.newMoves g (t.serve request).2

/-- The times of the moves of a game while requests are served. -/
def moveTimes (g : GameId) : Tournament → List Request → List Nat
  | _, [] => []
  | t, request :: rest => t.serveTimes g request ++ moveTimes g (t.serve request).2 rest

variable {t s : Tournament} {g : GameId} {player : Role → PlayerId} {delay : Role → UInt64}
  {start m : Nat} {p : PlayerId} {decision : Decision}

theorem Reacts.exists_game?_eq_some {permit : Permit} (h : Reacts permit t s)
    (hgame : ∃ game, t.game? g = some game) : ∃ game, s.game? g = some game := by
  induction h with
  | refl => exact hgame
  | tail _ hreaction ih =>
      obtain ⟨game, hgame⟩ := ih
      cases hreaction with
      | tell notice => exact ⟨game, hgame⟩
      | note p event => exact ⟨game, hgame⟩
      | call k call _ hbefore _ =>
          rw [game?_heedAll, game?_setGame_of_eq_some hbefore]
          split
          · exact ⟨_, rfl⟩
          · exact ⟨game, hgame⟩

/-- A game keeps to its schedule: some number of moves have been made, and whoever is to make the
next one decides when its moment has come. A game that was released has no more moves. -/
structure IsTimed (g : GameId) (player : Role → PlayerId) (delay : Role → UInt64) (start m : Nat)
    (t : Tournament) : Prop where
  isPaired : t.IsPaired g player
  delay?_eq : ∀ role, t.delay? (player role) = some (delay role)
  isAlternating : ∀ game, t.game? g = some game → game.IsAlternating
  phase_ne : ∀ game, t.game? g = some game → game.phase ≠ .unstarted
  length_plays : ∀ game, t.game? g = some game → game.record.plays.length = m
  due_eq : ∀ game p decision, t.game? g = some game → t.decision? p = some decision →
    decision.game = g → decision.due = moment delay start (m + 1)

theorem isTimed_of_game? {game : Game} (hpaired : t.IsPaired g player)
    (hdelay : ∀ role, t.delay? (player role) = some (delay role)) (hgame : t.game? g = some game)
    (halternating : game.IsAlternating) (hphase : game.phase ≠ .unstarted)
    (hplays : game.record.plays.length = m)
    (hdue : ∀ decision role, t.decision? (player role) = some decision → decision.game = g →
      game.stopped = false → game.phase = .toMove role →
        decision.due = moment delay start (m + 1)) :
    t.IsTimed g player delay start m := by
  have hsame {found : Game} (hfound : t.game? g = some found) : found = game :=
    Option.some.inj (hfound.symm.trans hgame)
  refine ⟨hpaired, hdelay, fun found hfound => hsame hfound ▸ halternating, fun found hfound =>
    hsame hfound ▸ hphase, fun found hfound => hsame hfound ▸ hplays,
    fun found p decision hfound hpending hfor => ?_⟩
  obtain ⟨role, hstopped, hturn, rfl, _⟩ := hpaired.exists_holder hgame hpending hfor
  exact hdue decision role hpending hfor hstopped hturn

namespace IsTimed

theorem mono (h : t.IsTimed g player delay start m) (hstep : Step (unattended g player) t s)
    (hgame : ∀ game, s.game? g = some game → t.game? g = some game)
    (hdecision : ∀ p decision, s.decision? p = some decision → decision.game = g →
      t.decision? p = some decision) : s.IsTimed g player delay start m where
  isPaired := h.isPaired.step (hstep.mono reserved_of_unattended)
  delay?_eq role := (delay?_of_nature? (hstep.nature?_eq _)).trans (h.delay?_eq role)
  isAlternating game hfound := h.isAlternating game (hgame game hfound)
  phase_ne game hfound := h.phase_ne game (hgame game hfound)
  length_plays game hfound := h.length_plays game (hgame game hfound)
  due_eq game p decision hfound hpending hfor :=
    h.due_eq game p decision (hgame game hfound) (hdecision p decision hpending hfor) hfor

theorem of_call {game next : Game} {call : Call} {effects : List Effect} {n : Nat}
    (h : t.IsTimed g player delay start m) (hstep : Step (unattended g player) t s)
    (hgame : t.game? g = some game) (hcall : call.on game = .ok (next, effects))
    (hnext : s.game? g = some next) (hphase : next.phase ≠ .unstarted)
    (hplays : next.record.plays.length = n)
    (hdue : ∀ decision role, s.decision? (player role) = some decision → decision.game = g →
      next.stopped = false → next.phase = .toMove role →
        decision.due = moment delay start (n + 1)) :
    s.IsTimed g player delay start n :=
  isTimed_of_game? (h.isPaired.step (hstep.mono reserved_of_unattended))
    (fun role => (delay?_of_nature? (hstep.nature?_eq _)).trans (h.delay?_eq role)) hnext
    ((h.isAlternating game hgame).on hcall) hphase hplays hdue

theorem call {game next : Game} {call : Call} {effects : List Effect}
    (h : t.IsTimed g player delay start m) (hpermit : unattended g player t g call)
    (hgame : t.game? g = some game) (hcall : call.on game = .ok (next, effects)) :
    ((t.setGame g next).heedAll g effects).IsTimed g player delay start m := by
  have hnext : ((t.setGame g next).heedAll g effects).game? g = some next := by
    rw [game?_heedAll, game?_setGame_of_eq_some hgame, if_pos rfl]
  have hbefore := h.phase_ne game hgame
  have hkept : next.phase = game.phase ∧ next.record = game.record ∧
      (next.stopped = true ∨ next.phase.toMove? = none) := by
    cases Game.becomes_of_on_eq_ok hcall with
    | seated attacker defender _ hturn => exact ⟨rfl, rfl, .inr hturn⟩
    | started _ hturn =>
        -- a game that has been started is not started again while it is not over
        obtain ⟨role, hrole⟩ := (game.phase.eq_unstarted_or_exists_eq_toMove
          (hpermit rfl game hgame)).resolve_left hbefore
        rw [hrole] at hturn
        exact absurd hturn (by simp [Phase.toMove?])
    | moved role move => exact absurd rfl hpermit
    | stopped => exact ⟨rfl, rfl, .inl rfl⟩
    | aborted fault => exact absurd rfl hpermit
  obtain ⟨hphase, hrecord, hclosed⟩ := hkept
  refine h.of_call (.call g call hpermit hgame hcall) hgame hcall hnext (hphase ▸ hbefore)
    (by rw [hrecord, h.length_plays game hgame]) fun decision role _ _ hstopped hturn => ?_
  rw [hstopped, hturn] at hclosed
  exact absurd hclosed (by simp [Phase.toMove?])

theorem handling (h : t.IsTimed g player delay start m)
    (hhandling : Handling (unattended g player) t s) : s.IsTimed g player delay start m := by
  have hstep := hhandling.step
  cases hhandling with
  | react hreaction =>
      cases hreaction with
      | tell notice => exact h.mono hstep (fun _ => id) fun _ _ hpending _ => hpending
      | note q event => exact h.mono hstep (fun _ => id) fun _ _ hpending _ => hpending
      | @call k call game next effects hpermit hgame hcall =>
          by_cases heq : k = g
          · subst heq
            exact h.call hpermit hgame hcall
          · refine h.mono hstep (fun after hafter => ?_) fun p decision hpending hfor => ?_
            · rwa [game?_heedAll, game?_setGame_of_eq_some hgame, if_neg heq] at hafter
            · exact decision?_eq_some_of_heedAll (t := t.setGame k next)
                (Game.outcome_of_on_eq_ok hcall) (hfor ▸ Ne.symm heq) hpending
  | release k =>
      exact h.mono hstep (fun _ => game?_of_release_eq_some) fun _ _ hpending _ => hpending
  | letGo q k _ =>
      refine h.mono hstep (fun _ => id) fun p decision hpending _ => ?_
      rwa [decision?_holding] at hpending
  | @choose q k move _ game next effects _ _ hpermit hgame hcall =>
      have hother : k ≠ g := hpermit
      refine h.mono hstep (fun after hafter => ?_) fun p decision hpending hfor => ?_
      · rwa [game?_heedAll, game?_setGame_of_eq_some (t := t.modifyPlayer q _) hgame,
          if_neg hother] at hafter
      · rw [← t.decision?_holding q p []]
        exact decision?_eq_some_of_heedAll (t := (t.modifyPlayer q (·.holding [])).setGame k next)
          (Game.outcome_of_on_eq_ok hcall) (hfor ▸ Ne.symm hother) hpending

theorem handles (h : t.IsTimed g player delay start m)
    (hhandles : Handles (unattended g player) t s) : s.IsTimed g player delay start m := by
  induction hhandles with
  | refl => exact h
  | tail _ hhandling ih => exact ih.handling hhandling

/-- Once a decision for the game was taken at its due time, the next one is due when its player has
thought from then on. -/
theorem due_of_atOnce {game : Game} {other : Decision} {role : Role}
    (h : t.IsTimed g player delay start m) (hgame : t.game? g = some game)
    (hpending : t.decision? p = some decision) (hfor : decision.game = g)
    (honce : (t.lapsed p decision).AtOnce s) (hother : s.decision? (player role) = some other)
    (hsame : other.game = g) :
    other.due = moment delay start (m + 1) + (delay role).toNat := by
  rcases honce.due_cases _ other hother with hbefore | ⟨thinking, hthinking, hlater⟩
  · -- no two decisions were pending for the game before
    rw [decision?_lapsed] at hbefore
    obtain ⟨hne, hold⟩ := Option.ite_none_left_eq_some.1 hbefore
    exact absurd (h.isPaired.isScheduled.toIsAttuned.eq_of_decision? hgame hpending hfor hold
      hsame) hne
  · rw [delay?_lapsed, h.delay?_eq] at hthinking
    obtain rfl := Option.some.inj hthinking
    rw [hlater, ← h.due_eq game p decision hgame hpending hfor]
    rfl

/-- A decision for the game that is taken makes the next move, at its moment, or breaks the game
off. -/
theorem decided {found : Player} {game next : Game} {effects : List Effect} {thinking : UInt64}
    {source : RandomSource} {verdict : Verdict} (h : t.IsTimed g player delay start m)
    (hfound : t.player? p = some found)
    (hconduct : found.conduct = .automated thinking source (some decision))
    (hgame : t.game? decision.game = some game) (hfor : decision.game = g)
    (hverdict : verdict = game.rules.verdict game.turn.node found.role decision.choices source)
    (hcall : (game.answer found.role verdict.move).on game = .ok (next, effects)) :
    ∃ n, (n = m ∨ n = m + 1 ∧ decision.due = moment delay start (m + 1)) ∧
      (((t.heard p decision verdict.source
        (verdict.notices ++ game.refusal found.role verdict.move)).setGame decision.game
          next).heedAll decision.game effects).IsTimed g player delay start n := by
  subst hfor
  have hpending := decision?_of_conduct_eq hfound hconduct
  have hstep : Step (unattended decision.game player) t _ :=
    .decide p decision hfound hconduct hgame hverdict hcall
  have honce := (atOnce_heard t p decision verdict.source
    (verdict.notices ++ game.refusal found.role verdict.move)).trans
      (.setGame_heedAll _ decision.game next effects)
  have hnext := game?_setGame_of_eq_some ((game?_heard t p decision verdict.source
    (verdict.notices ++ game.refusal found.role verdict.move) _).trans hgame) next decision.game
  rw [if_pos rfl, ← game?_heedAll _ decision.game decision.game effects] at hnext
  obtain ⟨_, _, _, ⟨fault, habort⟩ | ⟨move, _, hplay⟩⟩ :=
    game.exists_on_answer_eq_ok found.role verdict.move
  · refine ⟨m, .inl rfl, ?_⟩
    have hon := hcall
    rw [habort] at hon
    cases Game.becomes_of_on_eq_ok hon with
    | aborted =>
        exact h.of_call hstep hgame hcall hnext Phase.noConfusion (h.length_plays game hgame)
          fun _ _ _ _ _ => Phase.noConfusion
  · refine ⟨m + 1, .inr ⟨rfl, h.due_eq game p decision hgame hpending rfl⟩, ?_⟩
    have hon := hcall
    rw [hplay] at hon
    obtain ⟨hphase, hmoves⟩ := Game.plays_of_on_play_eq_ok hon
    have hplays : next.record.plays.length = m + 1 := by
      rw [hmoves, List.length_append, h.length_plays game hgame, List.length_singleton]
    refine h.of_call hstep hgame hcall hnext hphase hplays fun other role hother hsame _ hturn => ?_
    rw [h.due_of_atOnce hgame hpending rfl honce hother hsame, moment_succ _ _ (m + 1), ← hplays,
      ← ((h.isAlternating game hgame).on hcall).mover_eq role hturn]

theorem movesMade_eq (h : t.IsTimed g player delay start m) {game : Game}
    (hgame : t.game? g = some game) : t.movesMade g = m := by
  rw [movesMade, hgame, Option.map_some, Option.getD_some, h.length_plays game hgame]

theorem newMoves_eq {permit : Permit} {n : Nat} (h : t.IsTimed g player delay start m)
    (hafter : s.IsTimed g player delay start n) (hleads : Leads permit t s)
    (hn : n = m ∨ n = m + 1 ∧ s.now = moment delay start (m + 1) ∧
      ∃ next, s.game? g = some next) :
    t.newMoves g s = momentsBetween delay start m n := by
  rcases hn with rfl | ⟨rfl, hnow, next, hnext⟩
  · rw [newMoves, momentsBetween_self]
    cases hnext : s.game? g with
    | none => simp [movesMade, hnext]
    | some next =>
        obtain ⟨game, hgame⟩ := hleads.exists_game?_eq_some hnext
        rw [h.movesMade_eq hgame, hafter.movesMade_eq hnext, Nat.sub_self, List.replicate_zero]
  · obtain ⟨game, hgame⟩ := hleads.exists_game?_eq_some hnext
    rw [newMoves, momentsBetween_succ, h.movesMade_eq hgame, hafter.movesMade_eq hnext,
      Nat.add_sub_cancel_left, hnow]
    rfl

theorem take (h : t.IsTimed g player delay start m) (hpending : t.decision? p = some decision) :
    ∃ n, (n = m ∨ n = m + 1 ∧ decision.due = moment delay start (m + 1)) ∧
      (t.take p decision).IsTimed g player delay start n ∧
      t.newMoves g (t.take p decision) = momentsBetween delay start m n := by
  have hdiscipline := isDiscipline_isPaired g player
  have hleads := hdiscipline.leads_take h.isPaired hpending
  rcases hdiscipline.take_cases h.isPaired hpending with ⟨hgame, heq⟩ |
    ⟨found, game, next, effects, thinking, source, verdict, hfound, hconduct, hgame, hverdict,
      hcall, hreacts⟩
  · have hafter : (t.take p decision).IsTimed g player delay start m := by
      rw [heq]
      refine h.mono (.lapse p decision hpending hgame) (fun _ => id) fun q other hother _ => ?_
      rw [← lapsed, decision?_lapsed] at hother
      exact (Option.ite_none_left_eq_some.1 hother).2
    exact ⟨m, .inl rfl, hafter, h.newMoves_eq hafter hleads (.inl rfl)⟩
  · have hheld (k : GameId) := game?_setGame_of_eq_some ((game?_heard t p decision verdict.source
      (verdict.notices ++ game.refusal found.role verdict.move) _).trans hgame) next k
    by_cases hfor : decision.game = g
    · obtain ⟨n, hn, htimed⟩ := h.decided hfound hconduct hgame hfor hverdict hcall
      have hafter := htimed.handles hreacts.handles
      refine ⟨n, hn, hafter, h.newMoves_eq hafter hleads (hn.imp id fun ⟨hsucc, hdue⟩ =>
        ⟨hsucc, (now_take hpending).trans hdue, hreacts.exists_game?_eq_some ⟨next, ?_⟩⟩)⟩
      rw [game?_heedAll, hheld, if_pos hfor]
    · have hafter := (h.mono (.decide p decision hfound hconduct hgame hverdict hcall)
        (fun after hsame => ?_) fun q other hother hsame => ?_).handles hreacts.handles
      · exact ⟨m, .inl rfl, hafter, h.newMoves_eq hafter hleads (.inl rfl)⟩
      · rwa [game?_heedAll, hheld, if_neg hfor, game?_heard] at hsame
      · have hbefore := (decision?_heard t p q decision _ _).symm.trans
          (decision?_eq_some_of_heedAll (t := (t.heard p decision _ _).setGame _ next)
            (Game.outcome_of_on_eq_ok hcall) (hsame ▸ Ne.symm hfor) hother)
        exact (Option.ite_none_left_eq_some.1 hbefore).2

theorem settle (h : t.IsTimed g player delay start m) (time bound : Nat)
    (hpast : moment delay start m ≤ time) :
    ∃ n, m ≤ n ∧ (settle time bound t).IsTimed g player delay start n ∧
      settleTimes g time bound t = momentsBetween delay start m n ∧
      moment delay start n ≤ time := by
  have hnone {m : Nat} : [] = momentsBetween delay start m m :=
    (momentsBetween_self delay start m).symm
  induction bound generalizing t m with
  | zero => exact ⟨m, Nat.le_refl m, h, hnone, hpast⟩
  | succ bound ih =>
      cases hnext : t.next? with
      | none =>
          simp only [Tournament.settle, settleTimes, hnext]
          exact ⟨m, Nat.le_refl m, h, hnone, hpast⟩
      | some found =>
          obtain ⟨p, decision⟩ := found
          by_cases hdue : decision.due ≤ time
          · obtain ⟨k, hk, htake, hnew⟩ := h.take (decision?_of_next?_eq_some hnext)
            have hle : m ≤ k ∧ moment delay start k ≤ time := by
              rcases hk with rfl | ⟨rfl, hmoment⟩
              · exact ⟨Nat.le_refl _, hpast⟩
              · exact ⟨Nat.le_succ _, hmoment ▸ hdue⟩
            obtain ⟨n, hkn, hafter, hrest, hlast⟩ := ih htake hle.2
            simp only [Tournament.settle, settleTimes, hnext, if_pos hdue]
            refine ⟨n, Nat.le_trans hle.1 hkn, hafter, ?_, hlast⟩
            rw [hnew, hrest, momentsBetween_append _ _ hle.1 hkn]
          · simp only [Tournament.settle, settleTimes, hnext, if_neg hdue]
            exact ⟨m, Nat.le_refl m, h, hnone, hpast⟩

theorem wait (h : t.IsTimed g player delay start m) (time : Nat) :
    ({ t with now := time } : Tournament).IsTimed g player delay start m :=
  h.mono (.wait time) (fun _ => id) fun _ _ hpending _ => hpending

theorem serve (h : t.IsTimed g player delay start m) (hpast : moment delay start m ≤ t.now)
    {request : Request} (hrequest : t.Admits (unattended g player) request) :
    ∃ n, m ≤ n ∧ (t.serve request).2.IsTimed g player delay start n ∧
      t.serveTimes g request = momentsBetween delay start m n ∧
      moment delay start n ≤ (t.serve request).2.now := by
  have hdiscipline := isDiscipline_isPaired g player
  cases request with
  | advance duration =>
      obtain ⟨n, hmn, hafter, htimes, hlast⟩ := h.settle (t.now + duration)
        (t.players.size * (duration + 1) * decisionsPerInstant)
        (Nat.le_trans hpast (Nat.le_add_right _ _))
      exact ⟨n, hmn, hafter.wait _, htimes, hlast⟩
  | _ =>
      have hhandles := hdiscipline.handles_serve h.isPaired hrequest fun _ => Request.noConfusion
      have hafter := h.handles hhandles
      exact ⟨m, Nat.le_refl m, hafter, h.newMoves_eq hafter hhandles.leads (.inl rfl),
        hhandles.atOnce.now_eq ▸ hpast⟩

theorem run (h : t.IsTimed g player delay start m) (hpast : moment delay start m ≤ t.now)
    {requests : List Request} (hrequests : t.AdmitsAll (unattended g player) requests) :
    ∃ n, m ≤ n ∧ (t.run requests).IsTimed g player delay start n ∧
      t.moveTimes g requests = momentsBetween delay start m n ∧
      moment delay start n ≤ (t.run requests).now := by
  induction requests generalizing t m with
  | nil => exact ⟨m, Nat.le_refl m, h, (momentsBetween_self delay start m).symm, hpast⟩
  | cons request rest ih =>
      obtain ⟨hrequest, hrest⟩ := hrequests
      obtain ⟨k, hmk, hserve, htimes, hnow⟩ := h.serve hpast hrequest
      obtain ⟨n, hkn, hafter, hlater, hlast⟩ := ih hserve hnow hrest
      refine ⟨n, Nat.le_trans hmk hkn, hafter, ?_, hlast⟩
      rw [moveTimes, htimes, hlater, momentsBetween_append _ _ hmk hkn]

theorem now_lt_moment (h : t.IsTimed g player delay start m) (htimely : t.IsTimely) {game : Game}
    (hgame : t.game? g = some game) (hstopped : game.stopped = false)
    (hopen : game.phase.isOver = false) : t.now < moment delay start (m + 1) := by
  obtain ⟨role, hphase⟩ :=
    (game.phase.eq_unstarted_or_exists_eq_toMove hopen).resolve_left (h.phase_ne game hgame)
  obtain ⟨p, hseated⟩ := Option.isSome_iff_exists.1
    ((h.isAlternating game hgame).isSome_seated role hphase role)
  obtain ⟨own, rfl⟩ := h.isPaired.takesPart_of_seated game role p hgame hseated
  obtain ⟨decision, hpending⟩ := h.isPaired.isScheduled.isAwaited game role _ hgame hstopped hphase
    hseated (h.isPaired.isAutomated own)
  have hfor := (h.isPaired.isScheduled.own_iff _ decision hpending).1 ⟨own, rfl⟩
  rw [← h.due_eq game _ decision hgame hpending hfor]
  exact htimely _ decision hpending

end IsTimed

theorem isTimed_start (hpaired : t.IsPaired g player)
    (hdelay : ∀ role, t.delay? (player role) = some (delay role))
    (halternating : ∀ game, t.game? g = some game → game.IsAlternating)
    (hstart : t.start g = (.ok (), s)) : s.IsTimed g player delay t.now 0 ∧ t.AtOnce s := by
  have hdiscipline := isDiscipline_isPaired_reserved g player
  have hhandles : Handles (reserved g player) t s := by
    have hserve : Handles (reserved g player) t (t.serve (.start g)).2 :=
      hdiscipline.handles_serve hpaired trivial fun _ => Request.noConfusion
    rwa [serve, hstart] at hserve
  have honce := hhandles.atOnce
  have hafter := hdiscipline.leads hpaired hhandles.leads
  have htime (role : Role) := (honce.delay?_eq (player role)).trans (hdelay role)
  refine ⟨?_, honce⟩
  cases hgame : t.game? g with
  | none =>
      have hnone (game : Game) (hsome : s.game? g = some game) : False := by
        obtain ⟨before, hbefore⟩ := hhandles.leads.exists_game?_eq_some hsome
        exact absurd (hgame.symm.trans hbefore) (by simp)
      exact ⟨hafter, htime, fun game h => (hnone game h).elim, fun game h => (hnone game h).elim,
        fun game h => (hnone game h).elim, fun game _ _ h => (hnone game h).elim⟩
  | some game =>
      have heq : t.start g = t.changeBy t.performer g fun game => Call.start.on game := rfl
      cases hcall : Call.start.on game with
      | error fault =>
          rw [heq, changeBy_of_error _ t g _ game fault hgame hcall] at hstart
          exact absurd (congrArg Prod.fst hstart) (by simp)
      | ok result =>
          obtain ⟨next, effects⟩ := result
          rw [heq, changeBy_of_isSilent hpaired.isSilent hgame hcall] at hstart
          obtain rfl : (t.setGame g next).heedAll g effects = s := congrArg Prod.snd hstart
          have hnext : ((t.setGame g next).heedAll g effects).game? g = some next := by
            rw [game?_heedAll, game?_setGame_of_eq_some hgame, if_pos rfl]
          obtain ⟨hphase, hplays⟩ := Game.plays_of_on_start_eq_ok hcall
          have hmover := ((halternating game hgame).on hcall).mover_eq
          rw [hplays] at hmover
          refine isTimed_of_game? hafter htime hnext ((halternating game hgame).on hcall) hphase
            (congrArg List.length hplays) fun decision role hpending hfor _ hturn => ?_
          rcases honce.due_cases _ decision hpending with hbefore | ⟨thinking, hthinking, hdue⟩
          · -- no decision was pending for a game that could be started
            obtain ⟨holder, _, hopen, _⟩ := hpaired.exists_holder hgame hbefore hfor
            have hclosed := (Game.of_start_eq_ok hcall).2.1
            rw [hopen] at hclosed
            exact absurd hclosed (by simp [Phase.toMove?])
          · obtain rfl := Option.some.inj ((hdelay role).symm.trans hthinking)
            rw [hdue, moment_succ, moment_zero, hmover role hturn]
            rfl

/-- The moves of a game between two automated players who are left to it are made at the moments of
the schedule, counted from the time at which the game was started, and at no other times. This is
so however the time that goes by is divided, and whatever other games are played meanwhile. The
turn counts the moves. If everybody takes some time to think, then until the game is over or is
stopped the number of moves is the one for the time that has gone by. -/
theorem moveTimes_eq_map_moment {before later : List Request} {u v : Tournament} {game : Game}
    (hfresh : t.IsFresh)
    (hplayers : ∀ role, ∃ color source,
      t.player? (player role) = some (.automated role color (delay role) source))
    (hbefore : t.AdmitsAll (reserved g player) before) (hu : t.run before = u)
    (hstart : u.start g = (.ok (), v)) (hlater : v.AdmitsAll (unattended g player) later)
    (hs : v.run later = s) (hgame : s.game? g = some game) :
    v.moveTimes g later =
        (List.range game.record.plays.length).map (fun k => moment delay u.now (k + 1)) ∧
      game.turn.step = .ofNat game.record.plays.length ∧
      moment delay u.now game.record.plays.length ≤ s.now ∧
      (t.TakesTime → game.stopped = false → game.phase.isOver = false →
        game.record.plays.length = movesWithin delay (s.now - u.now)) := by
  subst hu hs
  have hdiscipline := isDiscipline_isPaired_reserved g player
  have hpaired : t.IsPaired g player := hfresh.isPaired fun role =>
    let ⟨color, source, hplayer⟩ := hplayers role
    ⟨color, delay role, source, hplayer⟩
  have hleads := hdiscipline.leads_run hpaired hbefore
  have hdelay (role : Role) : (t.run before).delay? (player role) = some (delay role) := by
    obtain ⟨color, source, hplayer⟩ := hplayers role
    rw [delay?_of_nature? (hleads.nature?_eq _), delay?, hplayer]
    rfl
  obtain ⟨htimed, honce⟩ := isTimed_start (hdiscipline.leads hpaired hleads) hdelay
    (fun game => hleads.forall_game (fun k new hnew => by
      obtain ⟨rules, echo, rfl⟩ := hfresh.exists_eq_new k new hnew
      exact Game.isAlternating_new rules echo) fun _ _ _ _ halternating => halternating.on) hstart
  obtain ⟨n, _, hafter, htimes, hlast⟩ := htimed.run
    (by rw [moment_zero, honce.now_eq]) hlater
  obtain rfl := hafter.length_plays game hgame
  refine ⟨htimes.trans (momentsBetween_zero _ _ _), (hafter.isAlternating game hgame).step_eq,
    hlast, fun htakes hstopped hopen => ?_⟩
  have htimely : t.IsTimely := fun p decision hpending => by
    rw [hfresh.decision?_eq_none p] at hpending
    exact absurd hpending (by simp)
  obtain ⟨hready, htime⟩ := htimely.run htakes hbefore
  obtain ⟨hlate, _⟩ := (honce.isTimely hready htime).run (honce.takesTime htime) hlater
  exact eq_movesWithin _ _ hlast (hafter.now_lt_moment hlate hgame hstopped hopen)

/-- An endless game of two automated players, who think for two and for three. -/
def clockwork : Tournament where
  now := 0
  games := #[.held (.new endless false)]
  players := #[.automated .attacker .first 2 (.ofSeed 0),
    .automated .defender .second 3 (.ofSeed 1)]
  notices := #[]
  diary := #[]

theorem isFresh_clockwork : clockwork.IsFresh :=
  isFresh_of_games_eq [(endless, false)] rfl
    (by simp [clockwork, Player.automated, Player.pending?])

def paces : Role → UInt64
  | .attacker => 2
  | .defender => 3

theorem takesTime_clockwork : clockwork.TakesTime := by
  intro p delay hdelay
  rcases p with _ | _ | p
  · rw [← Option.some.inj hdelay]
    decide
  · rw [← Option.some.inj hdelay]
    decide
  · exact absurd hdelay (by simp [delay?, player?, clockwork])

/-- The clockwork at the time 4, when its game can be started. -/
def wound : Tournament := clockwork.run [.seat 0 0 1, .advance 4]

/-- By the time 15 four moves have been made, two of them while the clock moved on by 7 at once,
and none at the times at which it stopped. -/
theorem moveTimes_clockwork :
    ∃ v s game, clockwork.AdmitsAll (reserved 0 (seatsFrom 0)) [.seat 0 0 1, .advance 4] ∧
      wound.now = 4 ∧ wound.start 0 = (.ok (), v) ∧
      v.AdmitsAll (unattended 0 (seatsFrom 0)) [.advance 1, .advance 7, .advance 0, .advance 3] ∧
      v.run [.advance 1, .advance 7, .advance 0, .advance 3] = s ∧ s.now = 15 ∧
      s.game? 0 = some game ∧ game.stopped = false ∧ game.phase = .toMove .attacker ∧
      game.turn.step = 4 ∧
      v.moveTimes 0 [.advance 1, .advance 7, .advance 0, .advance 3] = [6, 9, 11, 14] := by
  have hplayers (role : Role) : ∃ color source, clockwork.player? (seatsFrom 0 role) =
      some (.automated role color (paces role) source) := by
    cases role <;> exact ⟨_, _, rfl⟩
  have hbefore : clockwork.AdmitsAll (reserved 0 (seatsFrom 0)) [.seat 0 0 1, .advance 4] :=
    ⟨fun _ _ hfirst hsecond => ⟨⟨hfirst, hsecond⟩, by simp [takesPart_seatsFrom_iff], by
      simp [takesPart_seatsFrom_iff]⟩, trivial, trivial⟩
  have hstart : wound.start 0 = (.ok (), (wound.start 0).2) := Prod.ext rfl rfl
  have hlater : (wound.start 0).2.AdmitsAll (unattended 0 (seatsFrom 0))
      [.advance 1, .advance 7, .advance 0, .advance 3] :=
    ⟨trivial, trivial, trivial, trivial, trivial⟩
  have hview : (((wound.start 0).2.run [.advance 1, .advance 7, .advance 0, .advance 3]).game?
      0).map (fun game => (game.stopped, game.phase)) = some (false, .toMove .attacker) := by
    decide +kernel
  obtain ⟨game, hgame, hfields⟩ := Option.map_eq_some_iff.1 hview
  obtain ⟨hstopped, hphase⟩ := Prod.mk.inj hfields
  obtain ⟨htimes, hstep, _, hcount⟩ := moveTimes_eq_map_moment isFresh_clockwork
    hplayers hbefore rfl hstart hlater rfl hgame
  have hlength : game.record.plays.length = 4 :=
    hcount takesTime_clockwork hstopped (by rw [hphase]; rfl)
  rw [hlength] at htimes hstep
  exact ⟨_, _, game, hbefore, rfl, hstart, hlater, rfl, rfl, hgame, hstopped, hphase, hstep,
    htimes⟩

end Tournament

end BisimPlay
