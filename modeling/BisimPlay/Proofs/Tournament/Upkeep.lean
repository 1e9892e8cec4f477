import BisimPlay.Proofs.Tournament.Duels
import BisimPlay.Proofs.Tournament.Stopping

/-!
# Tournaments that are kept up

Games and players may be added to a tournament while it goes on. As long as no game is
released and nobody acts from within a prompt, every game stays where it is, decisions are
pending only for games that are there, and a game that has been stopped for good is not
disturbed by those that come after it.

`IsTended` is the invariant and `Continues` says what one state of such a tournament has in
common with a later one. Each thing that is done is shown to continue the tournament, and
`Continues.trans` puts them together.
-/

namespace BisimPlay

/-- Requests that a game or the clock can be asked by anyone who holds the game. -/
def Request.isPublic : Request → Bool
  | .seat _ _ _ | .start _ | .play _ _ _ | .stop _ | .advance _ => true
  | _ => false

namespace Tournament

variable {permit : Permit} {t s u : Tournament} {g : GameId} {p : PlayerId} {game next : Game}

theorem lt_size_of_game?_eq_some (hgame : t.game? g = some game) : g < t.games.size := by
  by_contra hsize
  rw [game?, Array.getElem?_eq_none (Nat.not_lt.1 hsize)] at hgame
  exact absurd hgame (by simp)

theorem Step.size_games_eq (h : Step permit t s) : s.games.size = t.games.size := by
  have hle (g : GameId) : s.games.size ≤ g ↔ t.games.size ≤ g := by
    rcases h.slot_cases g with hsame | hreleased | ⟨game, next, hcall, hnext⟩
    · rw [← Array.getElem?_eq_none_iff, hsame, Array.getElem?_eq_none_iff]
    · rw [← Array.getElem?_eq_none_iff, hreleased, Option.map_eq_none_iff,
        Array.getElem?_eq_none_iff]
    · exact iff_of_false (Nat.not_le.2 (Array.getElem?_eq_some_iff.1 hnext).1)
        (Nat.not_le.2 (lt_size_of_game?_eq_some hcall.game?_eq))
  exact Nat.le_antisymm ((hle _).2 (Nat.le_refl _)) ((hle _).1 (Nat.le_refl _))

theorem Leads.size_games_eq (h : Leads permit t s) : s.games.size = t.games.size := by
  induction h with
  | refl => rfl
  | tail _ hstep ih => exact hstep.size_games_eq.trans ih

def HoldsAll (t : Tournament) : Prop := ∀ g < t.games.size, ∃ game, t.game? g = some game

theorem HoldsAll.setGame_heedAll (h : t.HoldsAll) (hgame : t.game? g = some game) (next : Game)
    (effects : List Effect) : ((t.setGame g next).heedAll g effects).HoldsAll := by
  intro k hk
  rw [games_heedAll, setGame, Array.size_setIfInBounds] at hk
  rw [game?_heedAll, game?_setGame_of_eq_some hgame]
  split
  · exact ⟨next, rfl⟩
  · exact h k hk

theorem HoldsAll.changeBy (h : t.HoldsAll) (hlines : ∀ p, t.lines p = []) (g : GameId)
    (call : Call) : (t.changeBy t.performer g fun game => call.on game).2.HoldsAll := by
  cases hgame : t.game? g with
  | none => simpa [Tournament.changeBy, hgame] using h
  | some game =>
      cases hcall : call.on game with
      | error fault =>
          rw [changeBy_of_error _ t g _ game fault hgame hcall]
          exact h
      | ok result =>
          rw [changeBy_of_lines_eq_nil hlines hgame hcall]
          exact h.setGame_heedAll hgame _ _

theorem HoldsAll.take (h : t.HoldsAll) (hlines : ∀ p, t.lines p = []) {decision : Decision}
    (hpending : t.decision? p = some decision) : (t.take p decision).HoldsAll := by
  cases hgame : t.game? decision.game with
  | none =>
      rw [take_of_game?_eq_none hgame]
      exact h
  | some game =>
      obtain ⟨player, hplayer, hdecision⟩ := decision?_eq_some_iff.1 hpending
      obtain ⟨delay, source, hconduct⟩ := player.exists_conduct_eq hdecision
      obtain ⟨next, effects, hcall, _⟩ := game.exists_on_answer_eq_ok player.role
        (game.rules.verdict game.turn.node player.role decision.choices source).move
      rw [take_of_lines_eq_nil hlines hplayer hconduct hgame rfl hcall]
      refine HoldsAll.setGame_heedAll (fun k hk => ?_)
        ((game?_heard t p decision _ _ _).trans hgame) next effects
      rw [games_heard] at hk
      rw [game?_heard]
      exact h k hk

theorem HoldsAll.settle (h : t.HoldsAll) (hlines : ∀ p, t.lines p = []) (time n : Nat) :
    (settle time n t).HoldsAll := by
  refine (settle_induction (motive := fun s => s.HoldsAll ∧ ∀ p, s.lines p = []) time n
    ⟨h, hlines⟩ fun s p decision ⟨hholds, hsilent⟩ hpending _ => ?_).1
  have htake := leads_take (scriptsWithin_of_lines_eq_nil anyCall hsilent) hpending
  exact ⟨hholds.take hsilent hpending, htake.lines_eq_nil hsilent⟩

theorem HoldsAll.wait (h : t.HoldsAll) (time : Nat) : ({ t with now := time }).HoldsAll := h

theorem HoldsAll.serve (h : t.HoldsAll) (hlines : ∀ p, t.lines p = []) {request : Request}
    (hpublic : request.isPublic = true) : (t.serve request).2.HoldsAll := by
  cases request with
  | seat g attacker defender =>
      rw [Tournament.serve, seat]
      split
      · next first second _ _ =>
          exact h.changeBy hlines g (.seat (attacker, first.role) (defender, second.role))
      · exact h
  | start g => exact h.changeBy hlines g .start
  | play g role move =>
      have hafter := h.changeBy hlines g (.play role move)
      rw [Tournament.serve, play]
      rcases t.playBy_cases t.performer g role move with heq | ⟨notice, heq⟩
      · rwa [heq]
      · rw [heq]
        exact hafter
  | stop g => exact h.changeBy hlines g .stop
  | advance duration => exact (h.settle hlines _ _).wait _
  | choose | abort | prompt | dismiss | release =>
      exact absurd hpublic (by simp [Request.isPublic])

/-- Nobody acts from within a prompt, every game is there, and decisions are pending only for
games that are there, by players who are seated in them while a turn is open. -/
structure IsTended (t : Tournament) : Prop where
  lines_eq_nil : ∀ p, t.lines p = []
  holdsAll : t.HoldsAll
  isOpen : t.DecisionsAreOpen
  game_lt : ∀ p decision, t.decision? p = some decision → decision.game < t.games.size

theorem isTended_empty : empty.IsTended where
  lines_eq_nil _ := rfl
  holdsAll g hg := absurd hg (Nat.not_lt_zero g)
  isOpen p decision game hpending := absurd hpending (by simp [decision?, player?, empty])
  game_lt p decision hpending := absurd hpending (by simp [decision?, player?, empty])

theorem IsTended.game?_of_isHalted (h : t.IsTended) (hhalted : t.IsHalted g game) :
    t.game? g = some game := by
  rcases hhalted.retains with hheld | hreleased
  · rw [game?, hheld]
    rfl
  · have hg : g < t.games.size := (Array.getElem?_eq_some_iff.1 hreleased).1
    obtain ⟨found, hfound⟩ := h.holdsAll g hg
    rw [game?, hreleased] at hfound
    exact absurd hfound (by simp [Slot.game?])

/-- One tournament is what has become of another: it is tended, it may have more games, and
what had been stopped for good still is. -/
structure Continues (t s : Tournament) : Prop where
  isTended : s.IsTended
  size_le : t.games.size ≤ s.games.size
  isHalted : ∀ g game, t.IsHalted g game → s.IsHalted g game

theorem IsTended.continues_refl (h : t.IsTended) : t.Continues t :=
  ⟨h, Nat.le_refl _, fun _ _ => id⟩

theorem Continues.trans (h : t.Continues s) (h' : s.Continues u) : t.Continues u where
  isTended := h'.isTended
  size_le := Nat.le_trans h.size_le h'.size_le
  isHalted g game hhalted := h'.isHalted g game (h.isHalted g game hhalted)

theorem IsTended.game_lt_of_leads (h : t.IsTended) (hleads : Leads permit t s)
    {decision : Decision} (hpending : s.decision? p = some decision) :
    decision.game < s.games.size := by
  induction hleads generalizing p decision with
  | refl => exact h.game_lt p decision hpending
  | tail _ hstep ih =>
      rcases hstep.decision?_cases hpending with ⟨hold, _⟩ | ⟨next, hnext, _⟩
      · exact hstep.size_games_eq ▸ ih hold
      · exact lt_size_of_game?_eq_some hnext

theorem IsTended.continues_of_leads (h : t.IsTended) (hleads : ∀ g, Leads (sparing g) t s)
    (hholds : s.HoldsAll) : t.Continues s where
  isTended := {
    lines_eq_nil := (hleads 0).lines_eq_nil h.lines_eq_nil
    holdsAll := hholds
    isOpen := h.isOpen.leads (hleads 0)
    game_lt := fun _ _ => h.game_lt_of_leads (hleads 0) }
  size_le := Nat.le_of_eq (hleads 0).size_games_eq.symm
  isHalted g _ hhalted := hhalted.leads (hleads g)

theorem admits_sparing {request : Request} (hpublic : request.isPublic = true) (g : GameId) :
    t.Admits (sparing g) request := by
  cases request with
  | seat _ _ _ => exact fun _ _ _ _ _ => rfl
  | start _ => exact fun _ => rfl
  | play _ _ _ => exact fun _ => rfl
  | stop _ => exact fun _ => rfl
  | advance _ => trivial
  | choose | abort | prompt | dismiss | release =>
      exact absurd hpublic (by simp [Request.isPublic])

theorem IsTended.continues_serve (h : t.IsTended) (request : Request)
    (hpublic : request.isPublic = true) :
    t.Continues (t.serve request).2 ∧ (t.serve request).2.games.size = t.games.size := by
  have hleads (g : GameId) : Leads (sparing g) t (t.serve request).2 :=
    leads_serve (scriptsWithin_of_lines_eq_nil _ h.lines_eq_nil) (admits_sparing hpublic g)
  exact ⟨h.continues_of_leads hleads (h.holdsAll.serve h.lines_eq_nil hpublic),
    (hleads 0).size_games_eq⟩

theorem IsTended.continues_tell (h : t.IsTended) (notice : Notice) :
    t.Continues (t.tell notice) :=
  h.continues_of_leads (fun _ => .single (.tell notice)) h.holdsAll

theorem games_addGame_of_lt (game : Game) (hg : g < t.games.size) :
    (t.addGame game).2.games[g]? = t.games[g]? := by
  rw [addGame, Array.getElem?_push, if_neg (Nat.ne_of_lt hg)]

theorem IsTended.continues_addGame (h : t.IsTended) (game : Game) :
    t.Continues (t.addGame game).2 := by
  have hsize : (t.addGame game).2.games.size = t.games.size + 1 := Array.size_push _
  have hsame {g : GameId} (hg : g < t.games.size) : (t.addGame game).2.game? g = t.game? g := by
    rw [game?, games_addGame_of_lt game hg, game?]
  refine ⟨⟨h.lines_eq_nil, fun g hg => ?_, fun p decision found hpending hfound => ?_,
    fun p decision hpending => ?_⟩, hsize ▸ Nat.le_succ _, fun g found hhalted =>
      ⟨hhalted.stopped_eq, ?_, hhalted.game_ne⟩⟩
  · rcases Nat.lt_succ_iff_lt_or_eq.1 (hsize ▸ hg) with hold | rfl
    · rw [hsame hold]
      exact h.holdsAll g hold
    · exact ⟨game, by simp [game?, addGame, Slot.game?]⟩
  · exact h.isOpen p decision found hpending
      ((hsame (h.game_lt p decision hpending)).symm.trans hfound)
  · rw [hsize]
    exact Nat.lt_succ_of_lt (h.game_lt p decision hpending)
  · have hg : g < t.games.size :=
      hhalted.retains.elim (fun hslot => (Array.getElem?_eq_some_iff.1 hslot).1)
        fun hslot => (Array.getElem?_eq_some_iff.1 hslot).1
    rw [Retains, games_addGame_of_lt game hg]
    exact hhalted.retains

@[simp] theorem players_addGame (t : Tournament) (game : Game) :
    (t.addGame game).2.players = t.players := rfl

@[simp] theorem size_players_addPlayer (t : Tournament) (player : Player) :
    (t.addPlayer player).2.players.size = t.players.size + 1 :=
  Array.size_push _

theorem player?_addPlayer (t : Tournament) (player : Player) (p : PlayerId) :
    (t.addPlayer player).2.player? p =
      if p = t.players.size then some player else t.player? p :=
  Array.getElem?_push

theorem IsTended.continues_addPlayer (h : t.IsTended) (player : Player)
    (hidle : player.pending? = none) (hscript : player.script = []) :
    t.Continues (t.addPlayer player).2 := by
  have hdecision {p : PlayerId} {decision : Decision}
      (hpending : (t.addPlayer player).2.decision? p = some decision) :
      t.decision? p = some decision := by
    rw [decision?, player?_addPlayer] at hpending
    split at hpending
    · exact absurd (hidle.symm.trans hpending) (by simp)
    · exact hpending
  refine ⟨⟨fun p => ?_, h.holdsAll, fun p decision found hpending =>
    h.isOpen p decision found (hdecision hpending), fun p decision hpending =>
      h.game_lt p decision (hdecision hpending)⟩, Nat.le_refl _, fun g found hhalted =>
        ⟨hhalted.stopped_eq, hhalted.retains, fun p decision hpending =>
          hhalted.game_ne p decision (hdecision hpending)⟩⟩
  rw [lines, player?_addPlayer]
  split
  · exact hscript
  · exact h.lines_eq_nil p

end Tournament

end BisimPlay
