import BisimPlay.Proofs.Tournament.Steps
import Mathlib.Algebra.BigOperators.Fin
import Mathlib.Algebra.Order.BigOperators.Group.Finset

/-!
# Runs of a tournament

Serving a request and taking a decision are series of steps. A scripted player that is
prompted acts before the call that prompted it has come back, so calls nest; but a prompt
is the last thing that a call wants done, and thus the steps of the acts come after those
of the call. They are of the few kinds that a `Reaction` has, and a request that lets no time go
by adds only those of a `Handling`. How deep calls nest is bounded by the script lines that are
left, since every prompt that is acted upon uses one up, and the effects of a call are always
carried out that deep.

`Visits` is what a tournament can come to when requests are served and pending decisions
are taken in any order. `Visits.leads` says that all of it is reached by steps, so whatever
steps keep holds throughout. It asks that no script may ever do what is not permitted. Where
this depends on where the tournament stands, an `IsDiscipline` takes its place: something that
every step keeps, and that keeps whoever is prompted to what is permitted.
-/

namespace BisimPlay

namespace Effect

def isQuiet : Effect → Bool
  | .prompt _ _ => false
  | _ => true

/-- At most the last effect is a prompt. -/
def IsOrderly (effects : List Effect) : Prop :=
  ∃ quiet, ∃ last : Option (PlayerId × List Move),
    effects = quiet ++ last.toList.map (fun last => .prompt last.1 last.2) ∧
      ∀ effect ∈ quiet, effect.isQuiet = true

end Effect

theorem Effect.isQuiet_of_mem_map_tell {heading : List Notice} {effect : Effect}
    (h : effect ∈ heading.map Effect.tell) : effect.isQuiet = true := by
  obtain ⟨notice, _, rfl⟩ := List.mem_map.1 h
  rfl

theorem Game.isQuiet_of_mem_dismissals {game : Game} {effect : Effect}
    (h : effect ∈ game.dismissals) : effect.isQuiet = true := by
  rw [game.dismissals_eq] at h
  obtain ⟨player, _, rfl⟩ := List.mem_map.1 h
  rfl

/-- A call prompts at most one player, and only after everything else. -/
theorem Game.isOrderly_of_on_eq_ok {game next : Game} {call : Call} {effects : List Effect}
    (h : call.on game = .ok (next, effects)) : Effect.IsOrderly effects := by
  cases outcome_of_on_eq_ok h with
  | seated attacker defender => exact ⟨[], none, rfl, by simp⟩
  | prompted _ heading role =>
      refine ⟨heading.map .tell, (game.seated role).map (·, next.choices role), ?_,
        fun effect => Effect.isQuiet_of_mem_map_tell⟩
      cases game.seated role <;> rfl
  | dismissed _ heading =>
      refine ⟨_, none, (List.append_nil _).symm, fun effect heffect => ?_⟩
      exact (List.mem_append.1 heffect).elim Effect.isQuiet_of_mem_map_tell
        Game.isQuiet_of_mem_dismissals
  | closed heading =>
      exact ⟨_, none, (List.append_nil _).symm, fun effect => Effect.isQuiet_of_mem_map_tell⟩

theorem Game.exists_seated_of_prompt_mem {game next : Game} {call : Call}
    {effects : List Effect} (h : call.on game = .ok (next, effects)) {p : PlayerId}
    {choices : List Move} (hmem : .prompt p choices ∈ effects) :
    ∃ role, game.seated role = some p := by
  have hquiet {effects : List Effect} (hmem : .prompt p choices ∈ effects)
      (hall : ∀ effect ∈ effects, effect.isQuiet = true) : False :=
    absurd (hall _ hmem) (by simp [Effect.isQuiet])
  cases outcome_of_on_eq_ok h with
  | seated attacker defender => exact absurd hmem List.not_mem_nil
  | prompted _ heading role =>
      rcases List.mem_append.1 hmem with htell | hprompt
      · exact (hquiet htell fun _ => Effect.isQuiet_of_mem_map_tell).elim
      · obtain ⟨player, hplayer, heq⟩ := List.mem_map.1 hprompt
        obtain ⟨rfl, _⟩ := Effect.prompt.inj heq
        exact ⟨role, Option.mem_toList.1 hplayer⟩
  | dismissed _ heading =>
      refine (hquiet hmem fun effect heffect => ?_).elim
      exact (List.mem_append.1 heffect).elim Effect.isQuiet_of_mem_map_tell
        Game.isQuiet_of_mem_dismissals
  | closed heading => exact (hquiet hmem fun _ => Effect.isQuiet_of_mem_map_tell).elim

def Act.Makes : Act → Call → Prop
  | .play _, call | .playForOpponent, call => ∃ role move, call = .play role move
  | .stop, call => call = .stop
  | .abort, call => ∃ fault, call = .abort fault
  | .start, call => call = .start

namespace Tournament

def ScriptsWithin (permit : Permit) (t : Tournament) : Prop :=
  ∀ p, ∀ line ∈ t.lines p, ∀ act ∈ line, ∀ call, act.Makes call → ∀ s g, permit s g call

def ActsWithin (permit : Permit) (g : GameId) (t : Tournament) : Prop :=
  ∀ p, ∀ line ∈ t.lines p, ∀ act ∈ line, ∀ call, act.Makes call → ∀ s, permit s g call

def IsSilent (g : GameId) (t : Tournament) : Prop :=
  ∀ game role p, t.game? g = some game → game.seated role = some p → t.lines p = []

/-- Nobody acts in a game from within a call but as it is permitted. -/
def Obeys (permit : Permit) (g : GameId) (t : Tournament) : Prop :=
  t.ActsWithin permit g ∨ t.IsSilent g

variable {permit : Permit} {t s : Tournament} {g : GameId} {p : PlayerId} {depth : Nat}

theorem ScriptsWithin.actsWithin (h : t.ScriptsWithin permit) (g : GameId) :
    t.ActsWithin permit g :=
  fun p line hline act hact call hmakes s => h p line hline act hact call hmakes s g

theorem ActsWithin.of_lines (h : t.ActsWithin permit g) (hlines : ∀ p, s.lines p <:+ t.lines p) :
    s.ActsWithin permit g :=
  fun p line hline => h p line ((hlines p).subset hline)

theorem Leads.scriptsWithin {other : Permit} (h : Leads permit t s)
    (hscripts : t.ScriptsWithin other) : s.ScriptsWithin other :=
  fun p line hline => hscripts p line ((h.lines_isSuffix p).subset hline)

theorem scriptLines_eq_sum (t : Tournament) (n : Nat) (h : t.players.size ≤ n) :
    t.scriptLines = ∑ p ∈ Finset.range n, (t.lines p).length := by
  have hlines (p : PlayerId) :
      (t.lines p).length = (t.players[p]?.map (·.scriptLength)).getD 0 := by
    rw [lines, player?]
    cases t.players[p]? with
    | none => rfl
    | some player => exact player.scriptLength_eq.symm
  calc t.scriptLines
      = ∑ i : Fin t.players.toList.length, t.players.toList[i].scriptLength :=
        (Fin.sum_univ_fun_getElem t.players.toList Player.scriptLength).symm
    _ = ∑ p ∈ Finset.range t.players.toList.length, (t.lines p).length := by
        rw [Finset.sum_range]
        exact Finset.sum_congr rfl fun i _ => by simp [hlines]
    _ = ∑ p ∈ Finset.range n, (t.lines p).length := by
        refine Finset.sum_subset (Finset.range_subset_range.2 h) fun p _ hp => ?_
        have hnone : t.players[p]? = none := by simpa using hp
        rw [hlines, hnone, Option.map_none, Option.getD_none]

theorem scriptLines_le (h : ∀ p, s.lines p <:+ t.lines p) : s.scriptLines ≤ t.scriptLines := by
  rw [s.scriptLines_eq_sum _ (Nat.le_max_left _ t.players.size),
    t.scriptLines_eq_sum _ (Nat.le_max_right s.players.size _)]
  exact Finset.sum_le_sum fun p _ => (h p).length_le

/-- A player whose script has lines turns one over when it is prompted. -/
theorem scriptLines_notify_lt (t : Tournament) (g : GameId) (choices : List Move)
    (hline : t.lines p ≠ []) : (t.notify p g choices).scriptLines < t.scriptLines := by
  have hp : p < t.players.size := by
    refine Nat.lt_of_not_le fun hsize => hline ?_
    rw [lines, player?, Array.getElem?_eq_none hsize]
    rfl
  rw [(t.notify p g choices).scriptLines_eq_sum _ (Nat.le_max_left _ t.players.size),
    t.scriptLines_eq_sum _ (Nat.le_max_right (t.notify p g choices).players.size _)]
  refine Finset.sum_lt_sum (fun q _ => (lines_heed_isSuffix t g (.prompt p choices) q).length_le)
    ⟨p, Finset.mem_range.2 (Nat.lt_of_lt_of_le hp (Nat.le_max_right _ _)), ?_⟩
  rw [lines_notify, if_pos rfl, List.length_tail]
  exact Nat.sub_lt (List.length_pos_iff.2 hline) Nat.one_pos

theorem Leads.scriptLines_le (h : Leads permit t s) : s.scriptLines ≤ t.scriptLines :=
  Tournament.scriptLines_le h.lines_isSuffix

/-- What players do from inside a call, step by step: notices are given, events are noted and
further calls are made, but nobody is asked to choose and no decision is taken. -/
inductive Reaction (permit : Permit) (t : Tournament) : Tournament → Prop
  | tell (notice : Notice) : Reaction permit t (t.tell notice)
  | note (p : PlayerId) (event : Event) : Reaction permit t (t.note p event)
  | call (g : GameId) (call : Call) {game next : Game} {effects : List Effect}
      (hpermit : permit t g call) (hgame : t.game? g = some game)
      (hcall : call.on game = .ok (next, effects)) :
      Reaction permit t ((t.setGame g next).heedAll g effects)

def Reacts (permit : Permit) : Tournament → Tournament → Prop :=
  Relation.ReflTransGen (Reaction permit)

theorem Reaction.step (h : Reaction permit t s) : Step permit t s := by
  cases h with
  | tell notice => exact .tell notice
  | note p event => exact .note p event
  | call g call hpermit hgame hcall => exact .call g call hpermit hgame hcall

theorem Reacts.leads (h : Reacts permit t s) : Leads permit t s :=
  Relation.ReflTransGen.mono (fun _ _ => Reaction.step) _ _ h

/-- What a request other than to let time go by comes to, step by step: players react, a game is
released, and a person lets go of its choices or plays one of them. No decision is taken. -/
inductive Handling (permit : Permit) (t : Tournament) : Tournament → Prop
  | react {s : Tournament} (hreaction : Reaction permit t s) : Handling permit t s
  | release (g : GameId) : Handling permit t (t.release g)
  | letGo (p : PlayerId) (g : GameId) (hgame : t.game? g = none) :
      Handling permit t (t.modifyPlayer p (·.holding []))
  | choose (p : PlayerId) (g : GameId) (move : Move) {player : Player} {game next : Game}
      {effects : List Effect} (hplayer : t.player? p = some player)
      (hmove : move ∈ player.heldChoices) (hpermit : permit t g (.play player.role move))
      (hgame : t.game? g = some game)
      (hcall : (Call.play player.role move).on game = .ok (next, effects)) :
      Handling permit t (((t.modifyPlayer p (·.holding [])).setGame g next).heedAll g effects)

def Handles (permit : Permit) : Tournament → Tournament → Prop :=
  Relation.ReflTransGen (Handling permit)

theorem Handling.step (h : Handling permit t s) : Step permit t s := by
  cases h with
  | react hreaction => exact hreaction.step
  | release g => exact .release g
  | letGo p g hgame => exact .letGo p g hgame
  | choose p g move hplayer hmove hpermit hgame hcall =>
      exact .choose p g move hplayer hmove hpermit hgame hcall

theorem Handles.leads (h : Handles permit t s) : Leads permit t s :=
  Relation.ReflTransGen.mono (fun _ _ => Handling.step) _ _ h

theorem Reacts.handles (h : Reacts permit t s) : Handles permit t s :=
  Relation.ReflTransGen.mono (fun _ _ => Handling.react) _ _ h

/-- A way to carry out the effects of calls on a game that amounts to reactions, as long as no
more than a number of script lines are left. -/
def IsFaithful (permit : Permit) (g : GameId) (depth : Nat) (perform : Performer) : Prop :=
  ∀ t effects, t.scriptLines ≤ depth → t.ActsWithin permit g →
    Effect.IsOrderly effects → Reacts permit (t.heedAll g effects) (perform g effects t)

theorem playBy_cases (perform : Performer) (t : Tournament) (g : GameId) (role : Role)
    (move : Move) :
    t.playBy perform g role move =
        t.changeBy perform g (fun game => (Call.play role move).on game) ∨
      ∃ notice, t.playBy perform g role move =
        ((t.changeBy perform g fun game => (Call.play role move).on game).1,
          (t.changeBy perform g fun game => (Call.play role move).on game).2.tell notice) := by
  have hcall : (t.changeBy perform g fun game => (Call.play role move).on game) =
      t.changeBy perform g (·.play role move) := rfl
  rw [hcall, playBy]
  split
  · next heq => exact .inr ⟨_, by rw [heq]⟩
  · next heq => exact .inl heq.symm

theorem reacts_playBy {perform : Performer} {role : Role} {move : Move}
    (h : Reacts permit t (t.changeBy perform g fun game => (Call.play role move).on game).2) :
    Reacts permit t (t.playBy perform g role move).2 := by
  rcases t.playBy_cases perform g role move with heq | ⟨notice, heq⟩
  · rwa [heq]
  · rw [heq]
    exact h.tail (.tell notice)

section Performing

variable {perform : Performer} (hperform : IsFaithful permit g depth perform)
  (hdepth : t.scriptLines ≤ depth) (hscripts : t.ActsWithin permit g)

include hperform hdepth hscripts

theorem reacts_changeBy (call : Call) (hpermit : permit t g call) :
    Reacts permit t (t.changeBy perform g fun game => call.on game).2 := by
  unfold changeBy
  cases hgame : t.game? g with
  | none => exact .refl
  | some game =>
      cases hcall : call.on game with
      | error fault => simpa [hcall] using .refl
      | ok result =>
          obtain ⟨next, effects⟩ := result
          simp only [hcall]
          exact .head (.call g call hpermit hgame hcall)
            (hperform (t.setGame g next) effects hdepth hscripts
              (Game.isOrderly_of_on_eq_ok hcall))

theorem reacts_actBy (role : Role) (choices : List Move) (act : Act)
    (hact : ∀ call, act.Makes call → ∀ s, permit s g call) :
    Reacts permit t (t.actBy perform p role g choices act) := by
  cases act with
  | play position =>
      rw [actBy]
      split
      · exact .refl
      · next move _ =>
          have hreacts := reacts_changeBy hperform hdepth hscripts (.play role move)
            (hact _ ⟨role, move, rfl⟩ t)
          exact (reacts_playBy hreacts).tail (.note _ _)
  | playForOpponent =>
      rw [actBy]
      split
      · exact .refl
      · next move _ =>
          have hreacts := reacts_changeBy hperform hdepth hscripts (.play role.opponent move)
            (hact _ ⟨role.opponent, move, rfl⟩ t)
          exact (reacts_playBy hreacts).tail (.note _ _)
  | stop =>
      have hreacts := reacts_changeBy hperform hdepth hscripts .stop (hact _ rfl t)
      exact hreacts.tail (.note _ _)
  | abort =>
      have hreacts := reacts_changeBy hperform hdepth hscripts (.abort .noWinningDefence)
        (hact _ ⟨_, rfl⟩ t)
      exact hreacts.tail (.note _ _)
  | start =>
      have hreacts := reacts_changeBy hperform hdepth hscripts .start (hact _ rfl t)
      exact hreacts.tail (.note _ _)

theorem reacts_line (role : Role) (choices : List Move) (line : List Act)
    (hline : ∀ act ∈ line, ∀ call, act.Makes call → ∀ s, permit s g call) :
    Reacts permit t (line.foldl (actBy perform p role g choices) t) := by
  induction line generalizing t with
  | nil => exact .refl
  | cons act rest ih =>
      have hfirst := reacts_actBy (g := g) (p := p) hperform hdepth hscripts role choices act
        (hline act List.mem_cons_self)
      exact hfirst.trans (ih (Nat.le_trans hfirst.leads.scriptLines_le hdepth)
        (hscripts.of_lines hfirst.leads.lines_isSuffix) fun other hother =>
          hline other (List.mem_cons_of_mem act hother))

end Performing

theorem eq_of_player? (hplayers : ∀ q, s.player? q = t.player? q)
    (hrest : { s with players := t.players } = t) : s = t := by
  have heq : s.players = t.players := Array.ext_getElem? hplayers
  rw [← hrest, ← heq]

theorem modifyPlayer_congr {change other : Player → Player}
    (h : ∀ player, t.player? p = some player → change player = other player) :
    t.modifyPlayer p change = t.modifyPlayer p other := by
  refine eq_of_player? (fun q => ?_) rfl
  rw [player?_modifyPlayer, player?_modifyPlayer]
  split
  · next heq =>
      subst heq
      cases hplayer : t.player? p with
      | none => rfl
      | some player => exact congrArg some (h player hplayer)
  · rfl

theorem modifyPlayer_eq_self {change : Player → Player}
    (h : ∀ player, t.player? p = some player → change player = player) :
    t.modifyPlayer p change = t := by
  refine eq_of_player? (fun q => ?_) rfl
  rw [player?_modifyPlayer]
  split
  · next heq =>
      subst heq
      cases hplayer : t.player? p with
      | none => rfl
      | some player => exact congrArg some (h player hplayer)
  · rfl

theorem promptBy_eq (perform : Performer) (t : Tournament) (p : PlayerId) (g : GameId)
    (choices : List Move) {player : Player} (hplayer : t.player? p = some player) :
    t.promptBy perform p g choices =
      (player.script.head?.getD []).foldl (actBy perform p player.role g choices)
        (t.notify p g choices) := by
  rw [promptBy, notify, hplayer]
  have hplayers {change other : Player → Player} (h : change player = other player) :
      t.modifyPlayer p change = t.modifyPlayer p other :=
    modifyPlayer_congr fun found hfound => by
      rwa [Option.some.inj (hfound.symm.trans hplayer)]
  cases hconduct : player.conduct with
  | human hand =>
      simp only [Player.script, hconduct, List.head?_nil, Option.getD_none, List.foldl_nil]
      exact hplayers (by simp [Player.told, hconduct])
  | automated delay source pending =>
      simp only [Player.script, hconduct, List.head?_nil, Option.getD_none, List.foldl_nil]
      exact hplayers (by simp [Player.told, hconduct])
  | scripted script dismissals =>
      cases script with
      | nil =>
          simp only [Player.script, hconduct, List.head?_nil, Option.getD_none, List.foldl_nil]
          refine (modifyPlayer_eq_self (t := t.note p _) fun found hfound => ?_).symm
          obtain rfl := Option.some.inj (hplayer.symm.trans hfound)
          obtain ⟨role, color, conduct⟩ := player
          simp_all [Player.told]
      | cons line rest =>
          simp only [Player.script, hconduct, List.head?_cons, Option.getD_some]
          congr 1
          refine modifyPlayer_congr (t := t.note p _) fun found hfound => ?_
          obtain rfl := Option.some.inj (hplayer.symm.trans hfound)
          simp [Player.told, hconduct]

theorem promptBy_of_lines_eq_nil (perform : Performer) (g : GameId) (choices : List Move)
    (hlines : t.lines p = []) : t.promptBy perform p g choices = t.notify p g choices := by
  cases hplayer : t.player? p with
  | none => rw [promptBy, notify, hplayer]
  | some player =>
      have hscript : player.script = [] := by
        rw [← hlines, lines, hplayer]
        rfl
      rw [promptBy_eq perform t p g choices hplayer, hscript]
      rfl

theorem reacts_promptBy {perform : Performer} (hperform : IsFaithful permit g depth perform)
    (hdepth : t.scriptLines ≤ depth + 1) (hscripts : t.ActsWithin permit g)
    (choices : List Move) :
    Reacts permit (t.notify p g choices) (t.promptBy perform p g choices) := by
  cases hlines : t.lines p with
  | nil =>
      rw [promptBy_of_lines_eq_nil perform g choices hlines]
      exact .refl
  | cons line rest =>
      obtain ⟨player, hplayer, hscript⟩ : ∃ player, t.player? p = some player ∧
          player.script = line :: rest := by
        rw [lines] at hlines
        cases hplayer : t.player? p with
        | none => simp [hplayer] at hlines
        | some player => exact ⟨player, rfl, by simpa [hplayer] using hlines⟩
      have hfewer := t.scriptLines_notify_lt g choices (p := p) (by simp [hlines])
      rw [promptBy_eq perform t p g choices hplayer, hscript]
      refine reacts_line hperform (Nat.le_of_lt_succ (Nat.lt_of_lt_of_le hfewer hdepth))
        (hscripts.of_lines (t.lines_heed_isSuffix g (.prompt p choices)))
        player.role choices line (hscripts p line ?_)
      rw [hlines]
      exact List.mem_cons_self

/-- With quiet effects it does not matter in which way they are carried out. -/
theorem foldl_effectBy_of_isQuiet (perform : Performer) (g : GameId) (t : Tournament)
    (effects : List Effect) (h : ∀ effect ∈ effects, effect.isQuiet = true) :
    effects.foldl (effectBy perform g) t = t.heedAll g effects := by
  induction effects generalizing t with
  | nil => rfl
  | cons effect rest ih =>
      have hrest := ih (t.heed g effect) fun other hother =>
        h other (List.mem_cons_of_mem effect hother)
      cases effect with
      | tell notice => exact hrest
      | dismiss p => exact hrest
      | prompt p choices => exact absurd (h _ List.mem_cons_self) (by simp [Effect.isQuiet])

theorem carryOut_of_isQuiet (depth : Nat) (g : GameId) (t : Tournament)
    {effects : List Effect} (h : ∀ effect ∈ effects, effect.isQuiet = true) :
    carryOut depth g effects t = t.heedAll g effects := by
  cases depth with
  | zero => exact foldl_effectBy_of_isQuiet _ g t effects h
  | succ depth => exact foldl_effectBy_of_isQuiet _ g t effects h

theorem foldl_effectBy_of_lines_eq_nil (perform : Performer) (g : GameId)
    {effects : List Effect}
    (hlines : ∀ p choices, .prompt p choices ∈ effects → t.lines p = [])
    (horderly : Effect.IsOrderly effects) :
    effects.foldl (effectBy perform g) t = t.heedAll g effects := by
  obtain ⟨quiet, last, rfl, hquiet⟩ := horderly
  rw [List.foldl_append, foldl_effectBy_of_isQuiet _ _ _ _ hquiet, heedAll_append]
  cases last with
  | none => rfl
  | some last =>
      have hlast := hlines last.1 last.2 (List.mem_append_right quiet List.mem_cons_self)
      have hnone : (t.heedAll g quiet).lines last.1 = [] :=
        List.suffix_nil.1 (hlast ▸ t.lines_heedAll_isSuffix g quiet last.1)
      exact promptBy_of_lines_eq_nil perform g last.2 hnone

theorem carryOut_of_prompted_lines_eq_nil (depth : Nat) (g : GameId) {effects : List Effect}
    (hlines : ∀ p choices, .prompt p choices ∈ effects → t.lines p = [])
    (horderly : Effect.IsOrderly effects) :
    carryOut depth g effects t = t.heedAll g effects := by
  cases depth with
  | zero => exact foldl_effectBy_of_lines_eq_nil _ g hlines horderly
  | succ depth => exact foldl_effectBy_of_lines_eq_nil _ g hlines horderly

theorem carryOut_of_lines_eq_nil (depth : Nat) (g : GameId) (hlines : ∀ p, t.lines p = [])
    {effects : List Effect} (horderly : Effect.IsOrderly effects) :
    carryOut depth g effects t = t.heedAll g effects :=
  carryOut_of_prompted_lines_eq_nil depth g (fun p _ _ => hlines p) horderly

/-- Effects that are carried out as deep as there are script lines amount to reactions. -/
theorem isFaithful_carryOut (permit : Permit) (g : GameId) (depth : Nat) :
    IsFaithful permit g depth (carryOut depth) := by
  induction depth with
  | zero =>
      intro t effects hdepth hscripts horderly
      have hlines (p : PlayerId) : t.lines p = [] := by
        by_contra hline
        exact Nat.not_lt_zero _ (Nat.lt_of_lt_of_le (t.scriptLines_notify_lt g [] hline) hdepth)
      rw [carryOut_of_lines_eq_nil 0 g hlines horderly]
      exact .refl
  | succ depth ih =>
      rintro t _ hdepth hscripts ⟨quiet, last, rfl, hquiet⟩
      rw [carryOut, List.foldl_append, foldl_effectBy_of_isQuiet _ _ _ _ hquiet, heedAll_append]
      cases last with
      | none => exact .refl
      | some last =>
          have hlines := t.lines_heedAll_isSuffix g quiet
          exact reacts_promptBy ih (Nat.le_trans (scriptLines_le hlines) hdepth)
            (hscripts.of_lines hlines) last.2

/-- A request that makes only calls that are permitted. Nobody but a game prompts or
dismisses its players. -/
def Admits (permit : Permit) (t : Tournament) : Request → Prop
  | .seat g attacker defender => ∀ first second, t.role? attacker = some first →
      t.role? defender = some second → permit t g (.seat (attacker, first) (defender, second))
  | .start g => permit t g .start
  | .play g role move => permit t g (.play role move)
  | .choose p _ g => ∀ player, t.player? p = some player →
      ∀ move ∈ player.heldChoices, permit t g (.play player.role move)
  | .stop g => permit t g .stop
  | .abort g fault => permit t g (.abort fault)
  | .release _ | .advance _ => True
  | .prompt _ _ _ | .dismiss _ => False

def AdmitsAll (permit : Permit) : Tournament → List Request → Prop
  | _, [] => True
  | t, request :: rest => t.Admits permit request ∧ AdmitsAll permit (t.serve request).2 rest

theorem Admits.mono {other : Permit} {request : Request} (h : t.Admits permit request)
    (hpermit : ∀ g call, permit t g call → other t g call) : t.Admits other request := by
  cases request with
  | seat g attacker defender =>
      exact fun first second hfirst hsecond => hpermit _ _ (h first second hfirst hsecond)
  | choose p index g =>
      exact fun player hplayer move hmove => hpermit _ _ (h player hplayer move hmove)
  | start | play | stop | abort => exact hpermit _ _ h
  | prompt | dismiss | release | advance => exact h

theorem mem_pending_iff (t : Tournament) (p : PlayerId) (decision : Decision) :
    (p, decision) ∈ t.pending ↔ t.decision? p = some decision := by
  rw [pending, List.mem_filterMap, decision?_eq_some_iff]
  constructor
  · rintro ⟨⟨player, q⟩, hmem, heq⟩
    obtain ⟨found, hpending, hfound⟩ := Option.map_eq_some_iff.1 heq
    obtain ⟨rfl, rfl⟩ := Prod.mk.inj hfound
    rw [List.mem_zipIdx_iff_getElem?, Array.getElem?_toList] at hmem
    exact ⟨player, hmem, hpending⟩
  · rintro ⟨player, hplayer, hpending⟩
    refine ⟨(player, p), ?_, by simp [hpending]⟩
    rw [List.mem_zipIdx_iff_getElem?, Array.getElem?_toList]
    exact hplayer

theorem play_of_game?_eq_none (hgame : t.game? g = none) (role : Role) (move : Move) :
    t.play g role move = (.ok (), t) := by
  simp [play, playBy, changeBy, hgame]

theorem play_of_eq_error {game : Game} {role : Role} {move : Move} {fault : Fault}
    (hgame : t.game? g = some game) (hplay : game.play role move = .error fault) :
    t.play g role move =
      (.error fault, t.tell ⟨.warn, "rejected " ++ role.text ++ " move: " ++ fault.message⟩) := by
  simp [play, playBy, changeBy, hgame, hplay]

theorem play_of_eq_ok {game next : Game} {role : Role} {move : Move} {effects : List Effect}
    (hgame : t.game? g = some game) (hplay : game.play role move = .ok (next, effects)) :
    t.play g role move =
      (.ok (), carryOut t.scriptLines g effects (t.setGame g next)) := by
  simp [play, playBy, changeBy, hgame, hplay, performer]

theorem modifyPlayer_holding_holding {player : Player} (hplayer : t.player? p = some player) :
    (t.modifyPlayer p (·.holding [])).modifyPlayer p (·.holding player.heldChoices) = t := by
  refine eq_of_player? (fun q => ?_) rfl
  rw [player?_modifyPlayer, player?_modifyPlayer]
  split
  · next heq =>
      subst heq
      rw [hplayer]
      exact congrArg some (player.holding_heldChoices_holding [])
  · rfl

theorem Obeys.of_lines (h : t.Obeys permit g) {game : Game} (hgame : t.game? g = some game)
    (hlines : ∀ p, s.lines p <:+ t.lines p) :
    s.ActsWithin permit g ∨ ∀ role p, game.seated role = some p → s.lines p = [] := by
  refine h.imp (fun hacts => hacts.of_lines hlines) fun hsilent role p hseated => ?_
  exact List.suffix_nil.1 (hsilent game role p hgame hseated ▸ hlines p)

theorem reacts_heedAll_carryOut {call : Call} {game next : Game} {effects : List Effect}
    (hcall : call.on game = .ok (next, effects))
    (hobeys : t.ActsWithin permit g ∨ ∀ role p, game.seated role = some p → t.lines p = []) :
    Reacts permit (t.heedAll g effects) (carryOut t.scriptLines g effects t) := by
  have horderly := Game.isOrderly_of_on_eq_ok hcall
  rcases hobeys with hacts | hsilent
  · exact isFaithful_carryOut permit g _ t effects (Nat.le_refl _) hacts horderly
  · rw [carryOut_of_prompted_lines_eq_nil _ g (fun p choices hmem => ?_) horderly]
    · exact .refl
    · obtain ⟨role, hseated⟩ := Game.exists_seated_of_prompt_mem hcall hmem
      exact hsilent role p hseated

theorem reacts_call (hobeys : t.Obeys permit g) (call : Call) (hpermit : permit t g call) :
    Reacts permit t (t.changeBy t.performer g fun game => call.on game).2 := by
  unfold changeBy
  cases hgame : t.game? g with
  | none => exact .refl
  | some game =>
      cases hcall : call.on game with
      | error fault => simpa [hcall] using .refl
      | ok result =>
          obtain ⟨next, effects⟩ := result
          simp only [hcall]
          exact .head (.call g call hpermit hgame hcall)
            (reacts_heedAll_carryOut (t := t.setGame g next) hcall
              (hobeys.of_lines (s := t.setGame g next) hgame fun _ => List.suffix_rfl))

/-- A person that chooses changes nothing when it has no such choice, gives its choices away when
the game was released, and is only remarked on when its move is refused. Otherwise the choices
leave its hand and the move is made. -/
theorem choose_cases (t : Tournament) (p : PlayerId) (index : Nat) (g : GameId) :
    (t.choose p index g).2 = t ∨
    (t.game? g = none ∧ (t.choose p index g).2 = t.modifyPlayer p (·.holding [])) ∨
    (∃ notice, (t.choose p index g).2 = t.tell notice) ∨
    ∃ player move game next effects, t.player? p = some player ∧ move ∈ player.heldChoices ∧
      t.game? g = some game ∧ (Call.play player.role move).on game = .ok (next, effects) ∧
      (t.choose p index g).2 =
        carryOut ((t.modifyPlayer p (·.holding [])).setGame g next).scriptLines g effects
          ((t.modifyPlayer p (·.holding [])).setGame g next) := by
  rw [choose]
  cases hplayer : t.player? p with
  | none => exact .inl rfl
  | some player =>
      cases hchoice : player.heldChoices[index]? with
      | none => exact .inl (by simp [hchoice])
      | some move =>
          have hgames : (t.modifyPlayer p (·.holding [])).game? g = t.game? g := rfl
          simp only [hchoice]
          cases hgame : t.game? g with
          | none =>
              rw [play_of_game?_eq_none (hgames.trans hgame)]
              exact .inr (.inl ⟨rfl, rfl⟩)
          | some game =>
              cases hplay : game.play player.role move with
              | error fault =>
                  rw [play_of_eq_error (hgames.trans hgame) hplay]
                  exact .inr (.inr (.inl ⟨_, modifyPlayer_holding_holding (t := t.tell _) hplayer⟩))
              | ok result =>
                  obtain ⟨next, effects⟩ := result
                  rw [play_of_eq_ok (hgames.trans hgame) hplay]
                  exact .inr (.inr (.inr ⟨player, move, game, next, effects, rfl,
                    List.mem_of_getElem? hchoice, rfl, hplay, rfl⟩))

theorem handles_choose (hobeys : t.Obeys permit g) (p : PlayerId) (index : Nat)
    (hrequest : t.Admits permit (.choose p index g)) :
    Handles permit t (t.choose p index g).2 := by
  rcases t.choose_cases p index g with heq | ⟨hgame, heq⟩ | ⟨notice, heq⟩ |
    ⟨player, move, game, next, effects, hplayer, hmove, hgame, hcall, heq⟩
  · rw [heq]
    exact .refl
  · rw [heq]
    exact .single (.letGo p g hgame)
  · rw [heq]
    exact .single (.react (.tell notice))
  · rw [heq]
    refine .head (.choose p g move hplayer hmove (hrequest player hplayer move hmove) hgame
      hcall) ?_
    exact (reacts_heedAll_carryOut (t := (t.modifyPlayer p (·.holding [])).setGame g next) hcall
      (hobeys.of_lines (s := t.modifyPlayer p (·.holding [])) hgame fun q =>
        t.lines_holding p q [] ▸ List.suffix_rfl)).handles

theorem abort_of_game?_eq_some {game : Game} (hgame : t.game? g = some game)
    (fault : Fault) :
    t.abort g fault =
      carryOut t.scriptLines g (game.abort fault).2 (t.setGame g (game.abort fault).1) := by
  simp [abort, abortBy, changeBy, hgame, performer]

theorem take_eq {decision : Decision} {player : Player} {game next : Game}
    {effects : List Effect} {delay : UInt64} {source : RandomSource} {verdict : Verdict}
    (hplayer : t.player? p = some player)
    (hconduct : player.conduct = .automated delay source (some decision))
    (hgame : t.game? decision.game = some game)
    (hverdict : verdict =
      game.rules.verdict game.turn.node player.role decision.choices source)
    (hcall : (game.answer player.role verdict.move).on game = .ok (next, effects)) :
    t.take p decision =
      carryOut (t.heard p decision verdict.source
        (verdict.notices ++ game.refusal player.role verdict.move)).scriptLines
        decision.game effects
        ((t.heard p decision verdict.source
          (verdict.notices ++ game.refusal player.role verdict.move)).setGame
            decision.game next) := by
  have hfound : (({ t with now := decision.due } : Tournament).modifyPlayer p
      Player.withoutDecision).player? p =
        some { player with conduct := .automated delay source none } := by
    rw [player?_modifyPlayer, if_pos rfl]
    refine (congrArg (Option.map _) hplayer).trans ?_
    simp [Player.withoutDecision, hconduct]
  have hheld : (({ t with now := decision.due } : Tournament).modifyPlayer p
      Player.withoutDecision).game? decision.game = some game := hgame
  have hafter : (t.heard p decision verdict.source verdict.notices).game? decision.game =
      some game := (game?_heard t p decision _ _ _).trans hgame
  simp only [take, hfound, hheld]
  rw [← hverdict, ← heard]
  cases hmove : verdict.move with
  | error fault =>
      rw [hmove] at hcall
      obtain ⟨rfl, rfl⟩ := Prod.mk.inj (Except.ok.inj hcall)
      rw [Game.refusal, List.append_nil]
      exact abort_of_game?_eq_some hafter fault
  | ok move =>
      rw [hmove] at hcall
      cases hplay : game.play player.role move with
      | error fault =>
          simp only [Game.answer, hplay] at hcall
          obtain ⟨rfl, rfl⟩ := Prod.mk.inj (Except.ok.inj hcall)
          simp only [play_of_eq_error hafter hplay, Game.refusal, hplay]
          rw [show ∀ notice, t.heard p decision verdict.source (verdict.notices ++ [notice]) =
            (t.heard p decision verdict.source verdict.notices).tell notice from
              fun _ => List.foldl_append]
          exact abort_of_game?_eq_some (t := (t.heard p decision _ _).tell _) hafter fault
      | ok result =>
          simp only [Game.answer, hplay] at hcall
          obtain rfl := Except.ok.inj (hplay.symm.trans hcall)
          simp only [play_of_eq_ok hafter hplay, Game.refusal, hplay, List.append_nil]

theorem take_of_lines_eq_nil (hlines : ∀ p, t.lines p = []) {decision : Decision}
    {player : Player} {game next : Game} {effects : List Effect} {delay : UInt64}
    {source : RandomSource} {verdict : Verdict} (hplayer : t.player? p = some player)
    (hconduct : player.conduct = .automated delay source (some decision))
    (hgame : t.game? decision.game = some game)
    (hverdict : verdict =
      game.rules.verdict game.turn.node player.role decision.choices source)
    (hcall : (game.answer player.role verdict.move).on game = .ok (next, effects)) :
    t.take p decision =
      ((t.heard p decision verdict.source (verdict.notices ++
        game.refusal player.role verdict.move)).setGame decision.game next).heedAll
          decision.game effects := by
  have hafter (notices : List Notice) (q : PlayerId) :
      ((t.heard p decision verdict.source notices).setGame decision.game next).lines q = [] :=
    (lines_heard t p q decision _ _).trans (hlines q)
  rw [take_eq hplayer hconduct hgame hverdict hcall,
    carryOut_of_lines_eq_nil _ _ (hafter _) (Game.isOrderly_of_on_eq_ok hcall)]

theorem take_of_game?_eq_none {decision : Decision} (hgame : t.game? decision.game = none) :
    t.take p decision =
      ({ t with now := decision.due } : Tournament).modifyPlayer p Player.withoutDecision := by
  have hheld : (({ t with now := decision.due } : Tournament).modifyPlayer p
      Player.withoutDecision).game? decision.game = none := hgame
  simp only [take, hheld]

theorem settle_induction {motive : Tournament → Prop} (time n : Nat) (ht : motive t)
    (htake : ∀ s p decision, motive s → s.decision? p = some decision → decision.due ≤ time →
      motive (s.take p decision)) : motive (settle time n t) := by
  induction n generalizing t with
  | zero => exact ht
  | succ n ih =>
      rw [settle]
      split
      · exact ht
      · next p decision hnext =>
          have hpending := (t.mem_pending_iff p decision).1 (mem_of_earliest_eq_some hnext)
          split
          · next hdue => exact ih (htake t p decision ht hpending hdue)
          · exact ht

/-- A property of tournaments that steps keep, and that has everybody act within a permit. -/
structure IsDiscipline (permit : Permit) (keeps : Tournament → Prop) : Prop where
  step : ∀ t s, keeps t → Step permit t s → keeps s
  obeys : ∀ t g, keeps t → t.Obeys permit g

theorem isDiscipline_scriptsWithin (permit : Permit) :
    IsDiscipline permit (ScriptsWithin permit) where
  step _ _ hscripts hstep := Leads.scriptsWithin (.single hstep) hscripts
  obeys _ g hscripts := .inl (hscripts.actsWithin g)

namespace IsDiscipline

variable {keeps : Tournament → Prop} (h : IsDiscipline permit keeps) (ht : keeps t)

include h ht

theorem leads (hleads : Leads permit t s) : keeps s := by
  induction hleads with
  | refl => exact ht
  | tail _ hstep ih => exact h.step _ _ ih hstep

/-- A decision that is taken comes to nothing, since its game was released, or it makes the call
that it comes to, and players react. -/
theorem take_cases {decision : Decision} (hpending : t.decision? p = some decision) :
    (t.game? decision.game = none ∧ t.take p decision =
      ({ t with now := decision.due } : Tournament).modifyPlayer p Player.withoutDecision) ∨
    ∃ player game next effects delay source verdict, t.player? p = some player ∧
      player.conduct = .automated delay source (some decision) ∧
      t.game? decision.game = some game ∧
      verdict = game.rules.verdict game.turn.node player.role decision.choices source ∧
      (game.answer player.role verdict.move).on game = .ok (next, effects) ∧
      Reacts permit
        (((t.heard p decision verdict.source
          (verdict.notices ++ game.refusal player.role verdict.move)).setGame
            decision.game next).heedAll decision.game effects) (t.take p decision) := by
  obtain ⟨player, hplayer, hdecision⟩ := decision?_eq_some_iff.1 hpending
  cases hgame : t.game? decision.game with
  | none => exact .inl ⟨rfl, take_of_game?_eq_none hgame⟩
  | some game =>
      obtain ⟨delay, source, hconduct⟩ := player.exists_conduct_eq hdecision
      obtain ⟨next, effects, hcall, _⟩ := game.exists_on_answer_eq_ok player.role
        (game.rules.verdict game.turn.node player.role decision.choices source).move
      refine .inr ⟨player, game, next, effects, delay, source, _, hplayer, hconduct, rfl, rfl,
        hcall, ?_⟩
      rw [take_eq hplayer hconduct hgame rfl hcall]
      exact reacts_heedAll_carryOut (t := (t.heard p decision _ _).setGame decision.game next)
        hcall ((h.obeys t decision.game ht).of_lines (s := t.heard p decision _ _) hgame
          fun q => lines_heard t p q decision _ _ ▸ List.suffix_rfl)

theorem leads_take {decision : Decision} (hpending : t.decision? p = some decision) :
    Leads permit t (t.take p decision) := by
  rcases h.take_cases ht hpending with ⟨hgame, heq⟩ |
    ⟨player, game, next, effects, delay, source, verdict, hplayer, hconduct, hgame, hverdict,
      hcall, hreacts⟩
  · rw [heq]
    exact .single (.lapse p decision hpending hgame)
  · exact .head (.decide p decision hplayer hconduct hgame hverdict hcall) hreacts.leads

theorem leads_settle (time n : Nat) : Leads permit t (settle time n t) :=
  settle_induction (motive := fun s => Leads permit t s) time n .refl
    fun _ _ _ hleads hpending _ => hleads.trans (h.leads_take (h.leads ht hleads) hpending)

/-- Serving a request takes no decision, unless it is to let time go by. -/
theorem handles_serve {request : Request} (hrequest : t.Admits permit request)
    (htime : ∀ duration, request ≠ .advance duration) :
    Handles permit t (t.serve request).2 := by
  cases request with
  | seat g attacker defender =>
      rw [serve, seat]
      split
      · next first second hfirst hsecond =>
          refine (reacts_call (h.obeys t g ht)
            (.seat (attacker, first.role) (defender, second.role)) (hrequest _ _ ?_ ?_)).handles
          · rw [role?, hfirst]
            rfl
          · rw [role?, hsecond]
            rfl
      · exact .refl
  | start g => exact (reacts_call (h.obeys t g ht) .start hrequest).handles
  | play g role move =>
      exact (reacts_playBy (reacts_call (h.obeys t g ht) (.play role move) hrequest)).handles
  | choose p index g => exact handles_choose (h.obeys t g ht) p index hrequest
  | stop g => exact (reacts_call (h.obeys t g ht) .stop hrequest).handles
  | abort g fault => exact (reacts_call (h.obeys t g ht) (.abort fault) hrequest).handles
  | prompt p g choices => exact absurd hrequest id
  | dismiss p => exact absurd hrequest id
  | release g => exact .single (.release g)
  | advance duration => exact absurd rfl (htime duration)

theorem leads_serve {request : Request} (hrequest : t.Admits permit request) :
    Leads permit t (t.serve request).2 := by
  cases request with
  | advance duration => exact (h.leads_settle ht _ _).tail (.wait _)
  | _ => exact (h.handles_serve ht hrequest fun _ => Request.noConfusion).leads

theorem leads_run {requests : List Request} (hrequests : t.AdmitsAll permit requests) :
    Leads permit t (t.run requests) := by
  induction requests generalizing t with
  | nil => exact .refl
  | cons request rest ih =>
      have hserve := h.leads_serve ht hrequests.1
      exact hserve.trans (ih (h.leads ht hserve) hrequests.2)

end IsDiscipline

theorem leads_take (hscripts : t.ScriptsWithin permit) {decision : Decision}
    (hpending : t.decision? p = some decision) : Leads permit t (t.take p decision) :=
  (isDiscipline_scriptsWithin permit).leads_take hscripts hpending

theorem leads_serve (hscripts : t.ScriptsWithin permit) {request : Request}
    (hrequest : t.Admits permit request) : Leads permit t (t.serve request).2 :=
  (isDiscipline_scriptsWithin permit).leads_serve hscripts hrequest

theorem scriptsWithin_anyCall (t : Tournament) : t.ScriptsWithin anyCall :=
  fun _ _ _ _ _ _ _ _ _ => trivial

/-- What a tournament can come to: requests are served that are admitted, and decisions
that are pending are taken, in any order. -/
inductive Visits (permit : Permit) (t : Tournament) : Tournament → Prop
  | start : Visits permit t t
  | serve {s : Tournament} (h : Visits permit t s) (request : Request)
      (hrequest : s.Admits permit request) : Visits permit t (s.serve request).2
  | take {s : Tournament} (h : Visits permit t s) (p : PlayerId) (decision : Decision)
      (hpending : s.decision? p = some decision) : Visits permit t (s.take p decision)

theorem Visits.run (h : t.Visits permit s) (requests : List Request)
    (hrequests : s.AdmitsAll permit requests) : t.Visits permit (s.run requests) := by
  induction requests generalizing s with
  | nil => exact h
  | cons request rest ih => exact ih (h.serve request hrequests.1) hrequests.2

theorem IsDiscipline.leads_of_visits {keeps : Tournament → Prop}
    (h : IsDiscipline permit keeps) (ht : keeps t) (hvisits : t.Visits permit s) :
    Leads permit t s := by
  induction hvisits with
  | start => exact .refl
  | serve _ request hrequest ih => exact ih.trans (h.leads_serve (h.leads ht ih) hrequest)
  | take _ p decision hpending ih => exact ih.trans (h.leads_take (h.leads ht ih) hpending)

theorem Visits.leads (h : Visits permit t s) (hscripts : t.ScriptsWithin permit) :
    Leads permit t s :=
  (isDiscipline_scriptsWithin permit).leads_of_visits hscripts h

end Tournament

end BisimPlay
