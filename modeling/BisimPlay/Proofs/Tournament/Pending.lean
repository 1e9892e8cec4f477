import BisimPlay.Proofs.Tournament.Steps

/-!
# Pending decisions

A decision comes into being when its player is prompted, for a game in which the player is
seated. The seats stay as they are until the turn is closed, and with the turn closed the
seated players are dismissed. Hence a decision that is pending for a game finds it with an
open turn and its player seated, whatever calls are made, breaking off included.

`Step.decision?_cases` says what a step can do to one decision, `DecisionsAreOpen.leads`
what follows for a series of steps.
-/

namespace BisimPlay

/-- The turn of a game is open, and a player is seated there. -/
def Game.IsOpenTo (game : Game) (p : PlayerId) : Prop :=
  game.stopped = false ∧ game.phase.toMove?.isSome = true ∧ p ∈ game.players

theorem Game.players_congr {game next : Game}
    (hseats : ∀ role, next.seated role = game.seated role) : next.players = game.players := by
  rw [players, players, show next.attacker = game.attacker from hseats .attacker,
    show next.defender = game.defender from hseats .defender]

namespace Tournament

variable {permit : Permit} {t s : Tournament} {g : GameId} {p : PlayerId}

/-- Decisions are pending only for games whose turn is open, and by players who are seated
there. -/
def DecisionsAreOpen (t : Tournament) : Prop :=
  ∀ p decision game, t.decision? p = some decision → t.game? decision.game = some game →
    game.IsOpenTo p

/-- `Step.decision?_cases` where nobody is prompted and no call is made. -/
theorem of_decision?_of_game? {decision : Decision}
    (hdecision : s.decision? p = some decision → t.decision? p = some decision)
    (hgames : ∀ g game, s.game? g = some game → t.game? g = some game)
    (hpending : s.decision? p = some decision) :
    t.decision? p = some decision ∧ ∀ game next, t.game? decision.game = some game →
      s.game? decision.game = some next → game.IsOpenTo p → next.IsOpenTo p := by
  refine ⟨hdecision hpending, fun game next hgame hnext hopen => ?_⟩
  rwa [← Option.some.inj (hgame.symm.trans (hgames _ next hnext))]

/-- `Step.decision?_cases` for the effects of a call. -/
theorem decision?_setGame_heedAll_cases {call : Call} {game next : Game}
    {effects : List Effect} (hgame : t.game? g = some game)
    (hcall : call.on game = .ok (next, effects)) {decision : Decision}
    (hpending : ((t.setGame g next).heedAll g effects).decision? p = some decision) :
    (t.decision? p = some decision ∧ ∀ before after, t.game? decision.game = some before →
      ((t.setGame g next).heedAll g effects).game? decision.game = some after →
        before.IsOpenTo p → after.IsOpenTo p) ∨
    ∃ after, ((t.setGame g next).heedAll g effects).game? decision.game = some after ∧
      after.IsOpenTo p := by
  simp only [game?_heedAll, game?_setGame_of_eq_some hgame]
  rcases decision?_heedAll_cases (Game.outcome_of_on_eq_ok hcall) hpending with
    ⟨role, due, rfl, _, hseated, hseats, hstopped, hphase⟩ | ⟨hold, hkept⟩
  · have hmem : p ∈ game.players := (game.mem_players_iff p).2 ⟨role, hseated⟩
    exact .inr ⟨next, if_pos rfl, hstopped, by rw [hphase]; rfl,
      Game.players_congr hseats ▸ hmem⟩
  · refine .inl ⟨hold, fun before after hbefore hafter ⟨hstopped, hopen, hmem⟩ => ?_⟩
    split at hafter
    · next heq =>
        obtain rfl := Option.some.inj hafter
        obtain rfl := Option.some.inj (hbefore.symm.trans (heq ▸ hgame))
        obtain ⟨_, hseats, hstill, hphase⟩ := hkept hstopped hopen hmem
        exact ⟨hstill, hphase, Game.players_congr hseats ▸ hmem⟩
    · obtain rfl := Option.some.inj (hbefore.symm.trans hafter)
      exact ⟨hstopped, hopen, hmem⟩

/-- A decision that is pending after a step was pending before, or it is new. If the turn of
its game was open to its player it still is, and for a new decision it is so anyway. -/
theorem Step.decision?_cases (h : Step permit t s) {decision : Decision}
    (hpending : s.decision? p = some decision) :
    (t.decision? p = some decision ∧ ∀ game next, t.game? decision.game = some game →
      s.game? decision.game = some next → game.IsOpenTo p → next.IsOpenTo p) ∨
    ∃ next, s.game? decision.game = some next ∧ next.IsOpenTo p := by
  cases h with
  | tell notice => exact .inl (of_decision?_of_game? id (fun _ _ => id) hpending)
  | note q event => exact .inl (of_decision?_of_game? id (fun _ _ => id) hpending)
  | wait time => exact .inl (of_decision?_of_game? id (fun _ _ => id) hpending)
  | release g =>
      exact .inl (of_decision?_of_game? id (fun _ _ => game?_of_release_eq_some) hpending)
  | letGo q g hgame =>
      exact .inl (of_decision?_of_game? (t.decision?_holding q p []).symm.trans
        (fun _ _ => id) hpending)
  | call g call hpermit hgame hcall =>
      exact decision?_setGame_heedAll_cases hgame hcall hpending
  | choose q g move hplayer hmove hpermit hgame hcall =>
      rw [← t.decision?_holding q p []]
      exact decision?_setGame_heedAll_cases (t := t.modifyPlayer q _) hgame hcall hpending
  | @decide q taken player game next effects _ _ verdict hplayer hconduct hgame hverdict hcall =>
      have hcases := decision?_setGame_heedAll_cases
        ((game?_heard t q taken _ _ _).trans hgame) hcall hpending
      simp only [game?_heard, decision?_heard] at hcases
      exact hcases.imp_left fun ⟨hold, hkept⟩ => ⟨(Option.ite_none_left_eq_some.1 hold).2, hkept⟩
  | lapse q taken htaken hgame =>
      refine .inl (of_decision?_of_game? (fun hafter => ?_) (fun _ _ => id) hpending)
      rw [decision?_withoutDecision] at hafter
      exact (Option.ite_none_left_eq_some.1 hafter).2

theorem DecisionsAreOpen.step (h : t.DecisionsAreOpen) (hstep : Step permit t s) :
    s.DecisionsAreOpen := by
  intro p decision next hpending hnext
  rcases hstep.decision?_cases hpending with ⟨hold, hkept⟩ | ⟨found, hfound, hopen⟩
  · rcases hstep.game?_cases hnext with hgame | ⟨game, hcall⟩
    · exact hkept next next hgame hnext (h p decision next hold hgame)
    · exact hkept game next hcall.game?_eq hnext (h p decision game hold hcall.game?_eq)
  · rwa [← Option.some.inj (hfound.symm.trans hnext)]

theorem DecisionsAreOpen.leads (h : t.DecisionsAreOpen) (hleads : Leads permit t s) :
    s.DecisionsAreOpen := by
  induction hleads with
  | refl => exact h
  | tail _ hstep ih => exact ih.step hstep

end Tournament

end BisimPlay
