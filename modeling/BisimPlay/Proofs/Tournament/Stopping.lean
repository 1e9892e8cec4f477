import BisimPlay.Proofs.Tournament.Coherence

/-!
# Stopping a game

A game that has been stopped stays as it is. It refuses seats, starts and moves, a further
stop does nothing, and since stopping leaves no decision pending for it, nothing that was
scheduled before comes to a move later. `IsHalted` is what steps keep of this, as long as
nobody breaks the game off; `IsHalted.leads` says so of a series of steps.

To other games a stop does no harm if it dismisses nobody who has a decision pending there.
The players of a game with an open turn are in no other such game, as long as nobody is
seated in two; the players of a game that is over, or was stopped before, are left alone.
The players of a game that has not been started yet are dismissed all the same, although
they may have a turn elsewhere: `decision?_stop_of_visits` says exactly what becomes of a
decision for another game, and `not_forall_decision?_stop_eq` is a case where one is lost.
-/

namespace BisimPlay

/-- A stopped game takes no call but stopping, which does nothing, and breaking off. -/
theorem Game.of_on_eq_ok_of_stopped {game next : Game} {call : Call} {effects : List Effect}
    (hstopped : game.stopped = true) (hcall : call.on game = .ok (next, effects))
    (habort : call.isAbort = false) : next = game := by
  cases becomes_of_on_eq_ok hcall with
  | seated attacker defender hrunning => exact absurd (hrunning.symm.trans hstopped) (by simp)
  | started hrunning => exact absurd (hrunning.symm.trans hstopped) (by simp)
  | moved role move hrunning => exact absurd (hrunning.symm.trans hstopped) (by simp)
  | stopped => rw [frozen, ← hstopped]
  | aborted fault => exact absurd habort (by simp [Call.isAbort])

namespace Tournament

variable {permit : Permit} {t s u : Tournament} {g : GameId} {p : PlayerId}
  {game : Game}

theorem setGame_of_game?_eq_some (hgame : t.game? g = some game) : t.setGame g game = t := by
  have hgames : (t.setGame g game).games = t.games := by
    refine Array.ext_getElem? fun h => ?_
    rw [games_setGame_of_eq_some hgame]
    split
    · next heq =>
        obtain ⟨slot, hslot, hheld⟩ := Option.bind_eq_some_iff.1 hgame
        cases slot with
        | held other =>
            obtain rfl := Option.some.inj hheld
            rw [← heq, hslot]
        | released last => exact absurd hheld (by simp [Slot.game?])
    · rfl
  rw [show t.setGame g game = { t with games := (t.setGame g game).games } from rfl, hgames]

theorem stop_eq (hgame : t.game? g = some game) :
    t.stop g = (t.setGame g game.frozen).heedAll g game.stop.2 := by
  obtain ⟨heading, heq⟩ := game.exists_stop_eq
  have hstop : t.stop g = carryOut t.scriptLines g game.stop.2 (t.setGame g game.frozen) := by
    simp [stop, stopBy, changeBy, hgame, performer, heq]
  rw [hstop]
  refine carryOut_of_isQuiet _ g _ fun effect heffect => ?_
  rw [heq] at heffect
  rcases List.mem_append.1 heffect with htell | hdismissal
  · exact Effect.isQuiet_of_mem_map_tell htell
  · split at hdismissal
    · exact Game.isQuiet_of_mem_dismissals hdismissal
    · exact absurd hdismissal List.not_mem_nil

theorem stop_of_game?_eq_none (hgame : t.game? g = none) : t.stop g = t := by
  simp [stop, stopBy, changeBy, hgame]

theorem stop_of_stopped (hgame : t.game? g = some game) (hstopped : game.stopped = true) :
    t.stop g = t := by
  have hfrozen : game.frozen = game := by
    rw [Game.frozen, ← hstopped]
  rw [stop_eq hgame, game.stop_of_stopped hstopped, hfrozen, setGame_of_game?_eq_some hgame]
  rfl

def sparing (g : GameId) : Permit := fun _ h call => h = g → call.isAbort = false

/-- Under its number stands the game, or its last phase if it has been released. -/
def Retains (t : Tournament) (g : GameId) (game : Game) : Prop :=
  t.games[g]? = some (.held game) ∨ t.games[g]? = some (.released game.phase)

theorem Retains.eq_of_game? (h : t.Retains g game) {other : Game}
    (hother : t.game? g = some other) : other = game := by
  rw [game?] at hother
  rcases h with hslot | hslot
  · rw [hslot] at hother
    exact (Option.some.inj hother).symm
  · simp [hslot, Slot.game?] at hother

/-- A game has been stopped for good: it stands as it did when it was stopped, and no decision
is pending for it. -/
structure IsHalted (t : Tournament) (g : GameId) (game : Game) : Prop where
  stopped_eq : game.stopped = true
  retains : t.Retains g game
  game_ne : ∀ p decision, t.decision? p = some decision → decision.game ≠ g

namespace IsHalted

theorem step (h : t.IsHalted g game) (hstep : Step (sparing g) t s) : s.IsHalted g game := by
  have hretains : s.Retains g game := by
    rcases hstep.slot_cases g with hsame | hreleased |
      ⟨before, next, ⟨hbefore, call, effects, hcall, hcause⟩, hnext⟩
    · rw [Retains, hsame]
      exact h.retains
    · rw [Retains, hreleased]
      rcases h.retains with heq | heq
      · exact .inr (by rw [heq]; rfl)
      · exact .inr (by rw [heq]; rfl)
    · obtain rfl := h.retains.eq_of_game? hbefore
      rcases hcause with hpermit | ⟨p, decision, hpending, hfor⟩
      · rw [Game.of_on_eq_ok_of_stopped h.stopped_eq hcall (hpermit rfl)] at hnext
        exact .inl hnext
      · exact absurd hfor (h.game_ne p decision hpending)
  refine ⟨h.stopped_eq, hretains, fun p decision hpending => ?_⟩
  rcases hstep.decision?_cases hpending with ⟨hold, _⟩ | ⟨next, hnext, hrunning, _⟩
  · exact h.game_ne p decision hold
  · -- a decision that is new is for a game that is not stopped
    rintro rfl
    obtain rfl := hretains.eq_of_game? hnext
    exact absurd (hrunning.symm.trans h.stopped_eq) (by simp)

theorem leads (h : t.IsHalted g game) (hleads : Leads (sparing g) t s) : s.IsHalted g game := by
  induction hleads with
  | refl => exact h
  | tail _ hstep ih => exact ih.step hstep

theorem stop_eq_self (h : t.IsHalted g game) : t.stop g = t := by
  cases hfound : t.game? g with
  | none => exact stop_of_game?_eq_none hfound
  | some found =>
      obtain rfl := h.retains.eq_of_game? hfound
      exact stop_of_stopped hfound h.stopped_eq

end IsHalted

theorem leads_stop (t : Tournament) (g : GameId) : Leads anyCall t (t.stop g) :=
  leads_serve t.scriptsWithin_anyCall (show t.Admits anyCall (.stop g) from trivial)

theorem isHalted_stop (h : t.DecisionsAreOpen) (hgame : t.game? g = some game) :
    (t.stop g).IsHalted g game.frozen := by
  have hslot : (t.stop g).games[g]? = some (.held game.frozen) := by
    rw [stop_eq hgame, games_heedAll, games_setGame_of_eq_some hgame, if_pos rfl]
  refine ⟨rfl, .inl hslot, fun p decision hpending => ?_⟩
  rintro rfl
  have hopen := h.leads (t.leads_stop decision.game) p decision game.frozen hpending
    (by rw [game?, hslot]; rfl)
  exact absurd hopen.1 (by simp [Game.frozen])

/-- A game takes no more calls. -/
structure Refuses (t : Tournament) (g : GameId) : Prop where
  start_eq : (t.start g).1 = .error .stopped
  play_eq : ∀ role move, (t.play g role move).1 = .error .stopped
  exists_choose_eq : ∀ p index, ∃ fault, (t.choose p index g).1 = .error fault
  exists_seat_eq : ∀ attacker defender, ∃ fault, (t.seat g attacker defender).1 = .error fault

theorem refuses_of_stopped (hgame : t.game? g = some game) (hstopped : game.stopped = true) :
    t.Refuses g := by
  have hplay (s : Tournament) (hsame : s.game? g = some game) (role : Role) (move : Move) :
      (s.play g role move).1 = .error .stopped := by
    rw [play_of_eq_error hsame (game.play_of_stopped role move hstopped)]
  refine ⟨?_, hplay t hgame, fun p index => ?_, fun attacker defender => ?_⟩
  · simp [start, startBy, changeBy, hgame, game.start_of_stopped hstopped]
  · rw [choose]
    split
    · exact ⟨_, rfl⟩
    · next player hplayer =>
        split
        · exact ⟨_, rfl⟩
        · next move hmove =>
            have hfault := hplay (t.modifyPlayer p (·.holding [])) hgame player.role move
            split
            · exact ⟨_, rfl⟩
            · next heq =>
                rw [heq] at hfault
                exact absurd hfault (by simp)
  · rw [seat]
    split
    · next first second _ _ =>
        cases hcall : (Call.seat (attacker, first.role) (defender, second.role)).on game with
        | ok result =>
            obtain ⟨_, _, hrunning, _⟩ := Game.of_on_seat_eq_ok hcall
            exact absurd (hrunning.symm.trans hstopped) (by simp)
        | error fault => exact ⟨fault, by rw [changeBy_of_error _ t g _ game fault hgame hcall]⟩
    · exact ⟨_, rfl⟩

theorem IsFresh.decisionsAreOpen_of_visits (hfresh : t.IsFresh)
    (hvisits : t.Visits anyCall s) : s.DecisionsAreOpen :=
  DecisionsAreOpen.leads hfresh.isInOrder.isOpen (hvisits.leads t.scriptsWithin_anyCall)

theorem IsFresh.isHalted_of_leads (hfresh : t.IsFresh) (hleads : Leads anyCall t s)
    (hgame : s.game? g = some game) (hlater : Leads (sparing g) (s.stop g) u) :
    u.IsHalted g game.frozen :=
  (isHalted_stop (DecisionsAreOpen.leads hfresh.isInOrder.isOpen hleads) hgame).leads hlater

/-- Stopping is for good. Whatever a tournament has come to, a game that is stopped stands as
it did, with its phase, its turn, its record, its seats and all that was published of it,
whatever is asked and whichever decisions fall due later, as long as nobody breaks the game
off. It takes no calls, no decision for it is pending, and to stop it again changes
nothing. -/
theorem isHalted_of_visits_stop (hfresh : t.IsFresh) (hvisits : t.Visits anyCall s)
    (hgame : s.game? g = some game) (hscripts : s.ScriptsWithin (sparing g))
    (hlater : (s.stop g).Visits (sparing g) u) :
    (s.stop g).game? g = some game.frozen ∧ u.IsHalted g game.frozen ∧ u.stop g = u ∧
      ∀ found, u.game? g = some found → u.Refuses g := by
  have hhalted := hfresh.isHalted_of_leads (hvisits.leads t.scriptsWithin_anyCall) hgame
    (hlater.leads ((s.leads_stop g).scriptsWithin hscripts))
  refine ⟨?_, hhalted, hhalted.stop_eq_self, fun found hfound => ?_⟩
  · rw [stop_eq hgame, game?_heedAll, game?_setGame_of_eq_some hgame, if_pos rfl]
  · obtain rfl := hhalted.retains.eq_of_game? hfound
    exact refuses_of_stopped hfound rfl

/-- Two games of one attack and two automated players, who are not yet seated. -/
def rematch : Tournament :=
  { duel with games := #[.held (.new oneAttack false), .held (.new oneAttack false)] }

theorem isFresh_rematch : rematch.IsFresh :=
  isFresh_of_games_eq [(oneAttack, false), (oneAttack, false)] rfl
    (by simp [rematch, duel, Player.automated, Player.pending?])

theorem visits_rematch : rematch.Visits anyCall (rematch.run [.seat 0 0 1, .start 0]) :=
  (Visits.start.serve (.seat 0 0 1) fun _ _ _ _ => trivial).serve (.start 0) trivial

/-- The players of a game that was stopped play the other one, whatever is asked of the
first. -/
theorem isHalted_rematch :
    ∃ s u, rematch.Visits anyCall s ∧ (s.stop 0).Visits (sparing 0) u ∧
      u.decision? 0 = some ⟨5, 1, oneAttack.choices .root .attacker⟩ ∧
      (∃ game, s.game? 0 = some game ∧ game.phase = .toMove .attacker ∧
        u.game? 0 = some game.frozen) ∧ u.stop 0 = u ∧ u.Refuses 0 := by
  have hstop : ((rematch.run [.seat 0 0 1, .start 0]).stop 0).Visits (sparing 0) _ := .start
  have hlater := ((hstop.serve (.seat 1 0 1) fun _ _ _ _ _ => rfl).serve (.start 1)
    fun _ => rfl).serve (.start 0) fun _ => rfl
  have hscripts := (visits_rematch.leads rematch.scriptsWithin_anyCall).scriptsWithin
    (scriptsWithin_duel : rematch.ScriptsWithin (sparing 0))
  obtain ⟨_, hhalted, hself, hrefuses⟩ :=
    isHalted_of_visits_stop isFresh_rematch visits_rematch (g := 0) rfl hscripts hlater
  exact ⟨_, _, visits_rematch, hlater, rfl, ⟨_, rfl, rfl, rfl⟩, hself, hrefuses _ rfl⟩

/-- A stop takes away the decisions of the seated players, and nobody else's, if the game was
neither over nor stopped before. -/
theorem decision?_stop (hgame : t.game? g = some game) (p : PlayerId) :
    (t.stop g).decision? p =
      if game.stopped = false ∧ game.phase.isOver = false ∧ p ∈ game.players then none
      else t.decision? p := by
  obtain ⟨heading, heq⟩ := game.exists_stop_eq
  have hset : (t.setGame g game.frozen).decision? p = t.decision? p := rfl
  rw [stop_eq hgame, heq]
  by_cases hrunning : game.stopped = false ∧ game.phase.isOver = false
  · rw [if_pos hrunning, decision?_heedAll_dismissals, hset]
    simp only [hrunning, true_and]
  · rw [if_neg hrunning, List.append_nil, decision?_heedAll_tell, hset, if_neg]
    exact fun h => hrunning ⟨h.1, h.2.1⟩

/-- Nobody is seated in two games whose turns are open. -/
def SeatsApart (t : Tournament) : Prop :=
  ∀ p g h first second, t.game? g = some first → t.game? h = some second →
    first.IsOpenTo p → second.IsOpenTo p → g = h

/-- What a stop does to a decision for another game, as long as nobody is seated in two games
whose turns are open: the decision stays, unless the game that is stopped has not been
started and the player is seated there as well. -/
theorem decision?_stop_of_visits (hfresh : t.IsFresh) (hvisits : t.Visits anyCall s)
    (hapart : s.SeatsApart) (hgame : s.game? g = some game) {decision : Decision}
    {other : Game} (hpending : s.decision? p = some decision)
    (hother : s.game? decision.game = some other) (hne : decision.game ≠ g) :
    (s.stop g).decision? p =
      if game.stopped = false ∧ game.phase = .unstarted ∧ p ∈ game.players then none
      else some decision := by
  have hopen := hfresh.decisionsAreOpen_of_visits hvisits p decision other hpending hother
  rw [decision?_stop hgame, hpending]
  cases hphase : game.phase with
  | unstarted => simp [Phase.isOver]
  | toMove role =>
      rw [if_neg, if_neg (by simp)]
      rintro ⟨hstopped, _, hmem⟩
      exact hne (hapart p _ g other game hother hgame hopen ⟨hstopped, by rw [hphase]; rfl, hmem⟩)
  | finished winner => simp [Phase.isOver]
  | aborted reason => simp [Phase.isOver]

theorem seatsApart_of_toMove?_eq_none (h : GameId)
    (hclosed : ∀ g game, g ≠ h → t.game? g = some game → game.phase.toMove? = none) :
    t.SeatsApart := by
  have heq {p : PlayerId} {g : GameId} {game : Game} (hgame : t.game? g = some game)
      (hopen : game.IsOpenTo p) : g = h := by
    by_contra hne
    have hsome := hopen.2.1
    rw [hclosed g game hne hgame] at hsome
    exact absurd hsome (by simp)
  intro p g other first second hfirst hsecond hopen hother
  exact (heq hfirst hopen).trans (heq hsecond hother).symm

/-- Both games are given to the same players, and the first of them is started. -/
def doubleBooking : List Request := [.seat 0 0 1, .start 0, .seat 1 0 1]

theorem exists_games_doubleBooking (n : Nat) :
    ∃ first second, (rematch.run (doubleBooking.take n)).games =
      #[.held first, .held second] ∧ second.phase = .unstarted := by
  rcases n with _ | _ | _ | n
  · exact ⟨_, _, rfl, rfl⟩
  · exact ⟨_, _, rfl, rfl⟩
  · exact ⟨_, _, rfl, rfl⟩
  · rw [show doubleBooking.take (n + 3) = doubleBooking by simp [doubleBooking]]
    exact ⟨_, _, rfl, rfl⟩

theorem seatsApart_doubleBooking (n : Nat) :
    (rematch.run (doubleBooking.take n)).SeatsApart := by
  obtain ⟨first, second, hgames, hunstarted⟩ := exists_games_doubleBooking n
  refine seatsApart_of_toMove?_eq_none 0 fun g game hne hgame => ?_
  rw [game?, hgames] at hgame
  rcases g with _ | _ | g
  · exact absurd rfl hne
  · obtain rfl := Option.some.inj hgame
    rw [hunstarted]
    rfl
  · exact absurd hgame (by simp)

/-- The attacker of the first game is to move there, and loses its decision when the second
game is stopped. -/
theorem decision?_stop_doubleBooking :
    ∃ decision, (rematch.run doubleBooking).decision? 0 = some decision ∧ decision.game = 0 ∧
      ((rematch.run doubleBooking).stop 1).decision? 0 = none := by
  have hvisits : rematch.Visits anyCall (rematch.run doubleBooking) :=
    visits_rematch.serve (.seat 1 0 1) fun _ _ _ _ => trivial
  have hstop := decision?_stop_of_visits isFresh_rematch hvisits
    (seatsApart_doubleBooking 3) (p := 0) (g := 1) rfl rfl rfl (by simp)
  exact ⟨_, rfl, rfl, hstop⟩

/-- It is not so that a stop leaves the decisions for all other games alone, even if all
players are automated and nobody ever sits in two games whose turns are open. -/
theorem not_forall_decision?_stop_eq :
    ¬ ∀ t : Tournament, t.IsFresh → (∀ p player, t.player? p = some player →
        player.isAutomated = true) → ∀ (requests : List Request) (g : GameId) (p : PlayerId)
        (decision : Decision), (∀ n, (t.run (requests.take n)).SeatsApart) →
        (t.run requests).decision? p = some decision → decision.game ≠ g →
          ((t.run requests).stop g).decision? p = some decision := by
  intro hall
  have hautomated : ∀ p player, rematch.player? p = some player →
      player.isAutomated = true := by
    intro p player hplayer
    rcases p with _ | _ | p
    · obtain rfl := Option.some.inj hplayer
      rfl
    · obtain rfl := Option.some.inj hplayer
      rfl
    · exact absurd hplayer (by simp [player?, rematch, duel])
  have hkept := hall rematch isFresh_rematch hautomated doubleBooking 1 0 _
    seatsApart_doubleBooking rfl (by simp)
  exact Option.some_ne_none _ (hkept.symm.trans rfl)

end Tournament

end BisimPlay
