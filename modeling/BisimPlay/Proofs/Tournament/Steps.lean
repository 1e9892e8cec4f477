import BisimPlay.Proofs.Tournament.Effects
import Mathlib.Logic.Relation

/-!
# Steps of a tournament

What happens in a tournament is a series of small steps: a notice is given, an event is
noted, a game is released, a call is made on a game and its effects are carried out, a
decision is taken. In a step nobody acts from inside a call; what a scripted player does
when it is prompted are further steps.

`Step.nature?_eq` and `Step.lines_isSuffix` say what every step keeps: the nature of the
players, and their scripts but for lines that have been used up. `Step.slot_cases` says what
a step can do to one game: it may release it, and it may make one call on it.
-/

namespace BisimPlay

namespace Tournament

/-- Who may make a call: in which tournament, on which game. -/
abbrev Permit := Tournament → GameId → Call → Prop

def anyCall : Permit := fun _ _ _ => True

/-- The steps of a tournament, where the calls from outside have to be permitted. -/
inductive Step (permit : Permit) (t : Tournament) : Tournament → Prop
  | tell (notice : Notice) : Step permit t (t.tell notice)
  | note (p : PlayerId) (event : Event) : Step permit t (t.note p event)
  | wait (time : Nat) : Step permit t { t with now := time }
  | release (g : GameId) : Step permit t (t.release g)
  /-- A person lets go of its choices for a game that was released. -/
  | letGo (p : PlayerId) (g : GameId) (hgame : t.game? g = none) :
      Step permit t (t.modifyPlayer p (·.holding []))
  | call (g : GameId) (call : Call) {game next : Game} {effects : List Effect}
      (hpermit : permit t g call) (hgame : t.game? g = some game)
      (hcall : call.on game = .ok (next, effects)) :
      Step permit t ((t.setGame g next).heedAll g effects)
  /-- A person plays one of its choices, which leave its hand. -/
  | choose (p : PlayerId) (g : GameId) (move : Move) {player : Player} {game next : Game}
      {effects : List Effect} (hplayer : t.player? p = some player)
      (hmove : move ∈ player.heldChoices) (hpermit : permit t g (.play player.role move))
      (hgame : t.game? g = some game)
      (hcall : (Call.play player.role move).on game = .ok (next, effects)) :
      Step permit t (((t.modifyPlayer p (·.holding [])).setGame g next).heedAll g effects)
  /-- A decision is taken, and its move is made or the game is broken off. -/
  | decide (p : PlayerId) (decision : Decision) {player : Player} {game next : Game}
      {effects : List Effect} {delay : UInt64} {source : RandomSource} {verdict : Verdict}
      (hplayer : t.player? p = some player)
      (hconduct : player.conduct = .automated delay source (some decision))
      (hgame : t.game? decision.game = some game)
      (hverdict : verdict =
        game.rules.verdict game.turn.node player.role decision.choices source)
      (hcall : (game.answer player.role verdict.move).on game = .ok (next, effects)) :
      Step permit t
        (((t.heard p decision verdict.source
          (verdict.notices ++ game.refusal player.role verdict.move)).setGame
            decision.game next).heedAll decision.game effects)
  /-- A decision for a game that was released comes to nothing. -/
  | lapse (p : PlayerId) (decision : Decision) (hpending : t.decision? p = some decision)
      (hgame : t.game? decision.game = none) :
      Step permit t (({ t with now := decision.due }).modifyPlayer p Player.withoutDecision)

def Leads (permit : Permit) : Tournament → Tournament → Prop :=
  Relation.ReflTransGen (Step permit)

variable {permit : Permit} {t s : Tournament}

theorem Step.mono {other : Permit} (h : Step permit t s)
    (hpermit : ∀ t g call, permit t g call → other t g call) : Step other t s := by
  cases h with
  | tell notice => exact .tell notice
  | note p event => exact .note p event
  | wait time => exact .wait time
  | release g => exact .release g
  | letGo p g hgame => exact .letGo p g hgame
  | call g call hallowed hgame hcall => exact .call g call (hpermit _ _ _ hallowed) hgame hcall
  | choose p g move hplayer hmove hallowed hgame hcall =>
      exact .choose p g move hplayer hmove (hpermit _ _ _ hallowed) hgame hcall
  | decide p decision hplayer hconduct hgame hverdict hcall =>
      exact .decide p decision hplayer hconduct hgame hverdict hcall
  | lapse p decision hpending hgame => exact .lapse p decision hpending hgame

theorem Step.nature?_eq (h : Step permit t s) (p : PlayerId) : s.nature? p = t.nature? p := by
  cases h with
  | tell notice => rfl
  | note p event => rfl
  | wait time => rfl
  | release g => rfl
  | letGo q g hgame => exact t.nature?_holding q p []
  | call g call hpermit hgame hcall => exact nature?_heedAll _ g _ p
  | choose q g move hplayer hmove hpermit hgame hcall =>
      exact (nature?_heedAll _ g _ p).trans (t.nature?_holding q p [])
  | decide q decision hplayer hconduct hgame hverdict hcall =>
      exact (nature?_heedAll _ _ _ p).trans (nature?_heard t q p decision _ _)
  | lapse q decision hpending hgame =>
      exact nature?_modifyPlayer { t with now := decision.due } q p _ fun player =>
        player.nature_withoutDecision

theorem Leads.nature?_eq (h : Leads permit t s) (p : PlayerId) :
    s.nature? p = t.nature? p := by
  induction h with
  | refl => rfl
  | tail _ hstep ih => exact (hstep.nature?_eq p).trans ih

theorem Leads.size_players_eq (h : Leads permit t s) : s.players.size = t.players.size := by
  have hle (p : PlayerId) : s.players.size ≤ p ↔ t.players.size ≤ p := by
    have hnone (u : Tournament) : u.players.size ≤ p ↔ u.nature? p = none := by
      rw [nature?, Option.map_eq_none_iff, player?, Array.getElem?_eq_none_iff]
    rw [hnone, h.nature?_eq, hnone]
  exact Nat.le_antisymm ((hle _).2 (Nat.le_refl _)) ((hle _).1 (Nat.le_refl _))

theorem Step.lines_isSuffix (h : Step permit t s) (p : PlayerId) :
    s.lines p <:+ t.lines p := by
  cases h with
  | tell notice => exact List.suffix_rfl
  | note q event => exact List.suffix_rfl
  | wait time => exact List.suffix_rfl
  | release g => exact List.suffix_rfl
  | letGo q g hgame => exact t.lines_holding q p [] ▸ List.suffix_rfl
  | call g call hpermit hgame hcall => exact lines_heedAll_isSuffix _ g _ p
  | choose q g move hplayer hmove hpermit hgame hcall =>
      rw [← t.lines_holding q p []]
      exact lines_heedAll_isSuffix _ g _ p
  | decide q decision hplayer hconduct hgame hverdict hcall =>
      rw [← lines_heard t q p decision _ _]
      exact lines_heedAll_isSuffix _ _ _ p
  | lapse q decision hpending hgame =>
      rw [lines_modifyPlayer _ q p _ fun player => player.script_withoutDecision]
      exact List.suffix_rfl

theorem Leads.lines_isSuffix (h : Leads permit t s) (p : PlayerId) :
    s.lines p <:+ t.lines p := by
  induction h with
  | refl => exact List.suffix_rfl
  | tail _ hstep ih => exact (hstep.lines_isSuffix p).trans ih

theorem Leads.lines_eq_nil (h : Leads permit t s) (hlines : ∀ p, t.lines p = [])
    (p : PlayerId) : s.lines p = [] :=
  List.suffix_nil.1 (hlines p ▸ h.lines_isSuffix p)

theorem games_release (t : Tournament) (g h : GameId) :
    (t.release g).games[h]? =
      if g = h then t.games[h]?.map Slot.release else t.games[h]? :=
  Array.getElem?_modify

theorem game?_of_release_eq_some {g other : GameId} {game : Game}
    (h : (t.release g).game? other = some game) : t.game? other = some game := by
  by_cases heq : g = other
  · rw [heq, game?_release] at h
    exact absurd h (by simp)
  · rwa [game?, games_release, if_neg heq] at h

/-- The call that a step makes on a game: it was permitted, or a decision for the game came
to it. -/
structure StepCall (permit : Permit) (t : Tournament) (g : GameId) (game next : Game) :
    Prop where
  game?_eq : t.game? g = some game
  exists_call : ∃ call effects, call.on game = .ok (next, effects) ∧
    (permit t g call ∨ ∃ p decision, t.decision? p = some decision ∧ decision.game = g)

/-- A step leaves a slot as it is, releases its game or makes a call on it. -/
theorem Step.slot_cases (h : Step permit t s) (g : GameId) :
    s.games[g]? = t.games[g]? ∨ s.games[g]? = t.games[g]?.map Slot.release ∨
      ∃ game next, StepCall permit t g game next ∧ s.games[g]? = some (.held next) := by
  cases h with
  | tell notice => exact .inl rfl
  | note p event => exact .inl rfl
  | wait time => exact .inl rfl
  | release other =>
      rw [games_release]
      split
      · exact .inr (.inl rfl)
      · exact .inl rfl
  | letGo p other hgame => exact .inl rfl
  | call other call hpermit hgame hcall =>
      rw [games_heedAll, games_setGame_of_eq_some hgame]
      split
      · next heq =>
          subst heq
          exact .inr (.inr ⟨_, _, ⟨hgame, call, _, hcall, .inl hpermit⟩, rfl⟩)
      · exact .inl rfl
  | choose p other move hplayer hmove hpermit hgame hcall =>
      rw [games_heedAll, games_setGame_of_eq_some (t := t.modifyPlayer p _) hgame]
      split
      · next heq =>
          subst heq
          exact .inr (.inr ⟨_, _, ⟨hgame, _, _, hcall, .inl hpermit⟩, rfl⟩)
      · exact .inl rfl
  | decide p decision hplayer hconduct hgame hverdict hcall =>
      have hpending := decision?_of_conduct_eq hplayer hconduct
      rw [games_heedAll, games_setGame_of_eq_some ((game?_heard t p decision _ _ _).trans hgame),
        games_heard]
      split
      · next heq =>
          subst heq
          exact .inr (.inr ⟨_, _, ⟨hgame, _, _, hcall, .inr ⟨p, decision, hpending, rfl⟩⟩, rfl⟩)
      · exact .inl rfl
  | lapse p decision hpending hgame => exact .inl rfl

theorem Step.game?_cases (h : Step permit t s) {g : GameId} {next : Game}
    (hnext : s.game? g = some next) :
    t.game? g = some next ∨ ∃ game, StepCall permit t g game next := by
  rcases h.slot_cases g with hsame | hreleased | ⟨game, after, hcall, hafter⟩
  · rw [game?, hsame] at hnext
    exact .inl hnext
  · rw [game?, hreleased] at hnext
    cases hslot : t.games[g]? with
    | none => simp [hslot] at hnext
    | some slot => simp [hslot, Slot.release, Slot.game?] at hnext
  · rw [game?, hafter] at hnext
    obtain rfl := Option.some.inj hnext
    exact .inr ⟨game, hcall⟩

theorem Leads.exists_game?_eq_some (h : Leads permit t s) {g : GameId} {game : Game}
    (hgame : s.game? g = some game) : ∃ before, t.game? g = some before := by
  induction h generalizing game with
  | refl => exact ⟨game, hgame⟩
  | tail _ hstep ih =>
      rcases hstep.game?_cases hgame with hbefore | ⟨before, hcall⟩
      · exact ih hbefore
      · exact ih hcall.game?_eq

theorem Leads.forall_game {motive : Game → Prop} (h : Leads permit t s)
    (hstart : ∀ g game, t.game? g = some game → motive game)
    (hcall : ∀ (call : Call) (game next : Game) effects, motive game →
      call.on game = .ok (next, effects) → motive next) {g : GameId} {game : Game}
    (hgame : s.game? g = some game) : motive game := by
  induction h generalizing g game with
  | refl => exact hstart g game hgame
  | tail _ hstep ih =>
      rcases hstep.game?_cases hgame with hbefore | ⟨before, hbefore, call, effects, hon, _⟩
      · exact ih hbefore
      · exact hcall call before game effects (ih hbefore) hon

end Tournament

end BisimPlay
