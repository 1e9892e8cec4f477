import BisimPlay.Proofs.Game.Calls
import BisimPlay.Tournament.Request

/-!
# What effects do to the players

The effects of a call are carried out one after the other. Here nobody acts from inside a
call: a scripted player that is prompted only notes the prompt and turns over the line of
its script. What effects change of a player is its decision, its hand or its script. They
keep its nature, which is its role, its color and its kind with its thinking time, and they
only ever use scripts up.

A decision goes when its player is dismissed, and it comes when an automated player is
prompted; nothing else in the effects of a call touches the decisions of players.
-/

namespace BisimPlay

/-- A kind of conduct, with the thinking time, and without all that changes in play. -/
def Conduct.nature : Conduct → Conduct
  | .human _ => .human []
  | .automated delay _ _ => .automated delay (.ofSeed 0) none
  | .scripted _ _ => .scripted [] 0

namespace Player

def nature (player : Player) : Player := { player with conduct := player.conduct.nature }

def isAutomated (player : Player) : Bool :=
  match player.conduct with
  | .automated _ _ _ => true
  | _ => false

def script (player : Player) : List (List Act) :=
  match player.conduct with
  | .scripted script _ => script
  | _ => []

def told (player : Player) (now : Nat) (g : GameId) (choices : List Move) : Player :=
  match player.conduct with
  | .human _ => player.holding choices
  | .automated delay source _ =>
    { player with
      conduct := .automated delay source (some ⟨now + delay.toNat, g, choices⟩) }
  | .scripted script dismissals =>
    { player with conduct := .scripted script.tail dismissals }

def dismissed (player : Player) : Player :=
  match player.conduct with
  | .human _ => player
  | .automated _ _ _ => player.withoutDecision
  | .scripted script dismissals =>
    { player with conduct := .scripted script (dismissals + 1) }

def source? (player : Player) : Option RandomSource :=
  match player.conduct with
  | .automated _ source _ => some source
  | _ => none

variable (player : Player) (now : Nat) (g : GameId) (choices : List Move)

@[simp] theorem role_nature : player.nature.role = player.role := rfl

@[simp] theorem isAutomated_nature : player.nature.isAutomated = player.isAutomated := by
  cases h : player.conduct <;> simp [nature, isAutomated, Conduct.nature, h]

@[simp] theorem nature_told : (player.told now g choices).nature = player.nature := by
  cases h : player.conduct <;> simp [told, nature, holding, Conduct.nature, h]

@[simp] theorem nature_dismissed : player.dismissed.nature = player.nature := by
  cases h : player.conduct <;> simp [dismissed, nature, withoutDecision, Conduct.nature, h]

@[simp] theorem nature_holding : (player.holding choices).nature = player.nature := by
  cases h : player.conduct <;> simp [nature, holding, Conduct.nature, h]

@[simp] theorem nature_withoutDecision : player.withoutDecision.nature = player.nature := by
  cases h : player.conduct <;> simp [nature, withoutDecision, Conduct.nature, h]

@[simp] theorem nature_withSource (source : RandomSource) :
    (player.withSource source).nature = player.nature := by
  cases h : player.conduct <;> simp [nature, withSource, Conduct.nature, h]

@[simp] theorem pending?_dismissed : player.dismissed.pending? = none := by
  cases h : player.conduct <;> simp [dismissed, pending?, withoutDecision, h]

@[simp] theorem pending?_holding : (player.holding choices).pending? = player.pending? := by
  cases h : player.conduct <;> simp [holding, pending?, h]

@[simp] theorem pending?_withSource (source : RandomSource) :
    (player.withSource source).pending? = player.pending? := by
  cases h : player.conduct <;> simp [withSource, pending?, h]

theorem exists_pending?_told (h : player.isAutomated = true) :
    ∃ due, (player.told now g choices).pending? = some ⟨due, g, choices⟩ := by
  cases hconduct : player.conduct <;> simp_all [told, pending?, isAutomated]

theorem pending?_eq_none_of_not_isAutomated (h : player.isAutomated = false) :
    player.pending? = none := by
  cases hconduct : player.conduct <;> simp_all [pending?, isAutomated]

theorem exists_conduct_eq {decision : Decision} (h : player.pending? = some decision) :
    ∃ delay source, player.conduct = .automated delay source (some decision) := by
  cases hconduct : player.conduct <;> simp_all [pending?]

theorem isAutomated_told :
    (player.told now g choices).isAutomated = player.isAutomated := by
  rw [← isAutomated_nature, nature_told, isAutomated_nature]

@[simp] theorem script_told : (player.told now g choices).script = player.script.tail := by
  cases h : player.conduct <;> simp [told, script, holding, h]

@[simp] theorem script_dismissed : player.dismissed.script = player.script := by
  cases h : player.conduct <;> simp [dismissed, script, withoutDecision, h]

@[simp] theorem script_holding : (player.holding choices).script = player.script := by
  cases h : player.conduct <;> simp [holding, script, h]

@[simp] theorem script_withoutDecision : player.withoutDecision.script = player.script := by
  cases h : player.conduct <;> simp [withoutDecision, script, h]

@[simp] theorem script_withSource (source : RandomSource) :
    (player.withSource source).script = player.script := by
  cases h : player.conduct <;> simp [withSource, script, h]

@[simp] theorem source?_told : (player.told now g choices).source? = player.source? := by
  cases h : player.conduct <;> simp [told, source?, holding, h]

@[simp] theorem source?_dismissed : player.dismissed.source? = player.source? := by
  cases h : player.conduct <;> simp [dismissed, source?, withoutDecision, h]

@[simp] theorem source?_holding : (player.holding choices).source? = player.source? := by
  cases h : player.conduct <;> simp [holding, source?, h]

@[simp] theorem source?_withoutDecision : player.withoutDecision.source? = player.source? := by
  cases h : player.conduct <;> simp [withoutDecision, source?, h]

@[simp] theorem source?_withSource (source : RandomSource) :
    (player.withSource source).source? = player.source?.map fun _ => source := by
  cases h : player.conduct <;> simp [withSource, source?, h]

theorem script_eq_nil_of_isAutomated (h : player.isAutomated = true) : player.script = [] := by
  cases hconduct : player.conduct <;> simp_all [isAutomated, script]

theorem scriptLength_eq : player.scriptLength = player.script.length := by
  cases h : player.conduct <;> simp [scriptLength, script, h]

theorem holding_heldChoices_holding :
    (player.holding choices).holding player.heldChoices = player := by
  obtain ⟨role, color, conduct⟩ := player
  cases conduct <;> rfl

end Player

namespace Tournament

section Changes

variable (t : Tournament)

def decision? (p : PlayerId) : Option Decision := (t.player? p).bind Player.pending?

def nature? (p : PlayerId) : Option Player := (t.player? p).map Player.nature

def isAutomated (p : PlayerId) : Bool := (t.player? p).any Player.isAutomated

def role? (p : PlayerId) : Option Role := (t.player? p).map Player.role

def source? (p : PlayerId) : Option RandomSource := (t.player? p).bind Player.source?

/-- Tell a player that it is to move, without having it act. -/
def notify (p : PlayerId) (g : GameId) (choices : List Move) : Tournament :=
  match t.player? p with
  | none => t
  | some player =>
    match player.conduct with
    | .scripted _ _ =>
      (t.note p (.prompted choices)).modifyPlayer p (·.told t.now g choices)
    | _ => t.modifyPlayer p (·.told t.now g choices)

/-- Carry out an effect, without having anyone act. -/
def heed (g : GameId) : Effect → Tournament
  | .tell notice => t.tell notice
  | .dismiss p => t.dismiss p
  | .prompt p choices => t.notify p g choices

def heedAll (g : GameId) (effects : List Effect) : Tournament :=
  effects.foldl (fun t effect => t.heed g effect) t

/-- A tournament at the due time of a decision that a player no longer has pending, after
the verdict is known, with a new source for the player, and notices have been given. -/
def heard (p : PlayerId) (decision : Decision) (source : RandomSource)
    (notices : List Notice) : Tournament :=
  notices.foldl tell ((({ t with now := decision.due }).modifyPlayer p
    Player.withoutDecision).modifyPlayer p (·.withSource source))

end Changes

variable {t : Tournament} {g : GameId} {p : PlayerId}

@[simp] theorem player?_modifyPlayer (t : Tournament) (p q : PlayerId)
    (change : Player → Player) :
    (t.modifyPlayer p change).player? q =
      if p = q then (t.player? q).map change else t.player? q :=
  Array.getElem?_modify

theorem player?_notify (t : Tournament) (p q : PlayerId) (g : GameId)
    (choices : List Move) :
    (t.notify p g choices).player? q =
      if p = q then (t.player? q).map (·.told t.now g choices) else t.player? q := by
  unfold notify
  split
  · next hnone =>
      split
      · next heq =>
          subst heq
          rw [hnone]
          rfl
      · rfl
  · split
    · exact player?_modifyPlayer _ p q _
    · exact player?_modifyPlayer _ p q _

theorem player?_dismiss (t : Tournament) (p q : PlayerId) :
    (t.dismiss p).player? q =
      if p = q then (t.player? q).map Player.dismissed else t.player? q := by
  by_cases heq : p = q
  · subst heq
    unfold dismiss
    rw [if_pos rfl]
    cases hplayer : t.player? p with
    | none => exact hplayer
    | some player =>
        cases hconduct : player.conduct with
        | human choices => simpa [hconduct, Player.dismissed] using hplayer
        | automated delay source pending => simp [hplayer, hconduct, Player.dismissed]
        | scripted script dismissals =>
            simp only [hconduct]
            refine (player?_modifyPlayer t p p _).trans ?_
            simp [hplayer, hconduct, Player.dismissed]
  · unfold dismiss
    rw [if_neg heq]
    split
    · rfl
    · split
      · rfl
      · rw [player?_modifyPlayer, if_neg heq]
      · refine (player?_modifyPlayer t p q _).trans ?_
        rw [if_neg heq]

@[simp] theorem games_heed (t : Tournament) (g : GameId) (effect : Effect) :
    (t.heed g effect).games = t.games := by
  cases effect with
  | tell notice => rfl
  | dismiss p =>
      rw [heed, dismiss]
      split
      · rfl
      · split <;> rfl
  | prompt p choices =>
      rw [heed, notify]
      split
      · rfl
      · split <;> rfl

@[simp] theorem games_heedAll (t : Tournament) (g : GameId) (effects : List Effect) :
    (t.heedAll g effects).games = t.games := by
  induction effects generalizing t with
  | nil => rfl
  | cons effect rest ih => exact (ih (t.heed g effect)).trans (games_heed t g effect)

@[simp] theorem game?_heedAll (t : Tournament) (g h : GameId) (effects : List Effect) :
    (t.heedAll g effects).game? h = t.game? h := by
  rw [game?, games_heedAll, game?]

theorem heedAll_append (t : Tournament) (g : GameId) (effects later : List Effect) :
    t.heedAll g (effects ++ later) = (t.heedAll g effects).heedAll g later :=
  List.foldl_append

@[simp] theorem player?_heedAll_tell (t : Tournament) (g : GameId) (heading : List Notice)
    (p : PlayerId) : (t.heedAll g (heading.map .tell)).player? p = t.player? p := by
  induction heading generalizing t with
  | nil => rfl
  | cons notice rest ih => exact ih (t.tell notice)

@[simp] theorem now_heedAll_tell (t : Tournament) (g : GameId) (heading : List Notice) :
    (t.heedAll g (heading.map .tell)).now = t.now := by
  induction heading generalizing t with
  | nil => rfl
  | cons notice rest ih => exact ih (t.tell notice)

theorem foldl_tell_eq (t : Tournament) (notices : List Notice) :
    notices.foldl tell t = { t with notices := t.notices ++ notices } := by
  induction notices generalizing t with
  | nil => simp
  | cons notice rest ih =>
      rw [List.foldl_cons, ih]
      simp [tell]

@[simp] theorem games_heard (t : Tournament) (p : PlayerId) (decision : Decision)
    (source : RandomSource) (notices : List Notice) :
    (t.heard p decision source notices).games = t.games := by
  rw [heard, foldl_tell_eq]
  rfl

@[simp] theorem game?_heard (t : Tournament) (p : PlayerId) (decision : Decision)
    (source : RandomSource) (notices : List Notice) (g : GameId) :
    (t.heard p decision source notices).game? g = t.game? g := by
  rw [game?, games_heard, game?]

theorem player?_heard (t : Tournament) (p q : PlayerId) (decision : Decision)
    (source : RandomSource) (notices : List Notice) :
    (t.heard p decision source notices).player? q =
      if p = q then (t.player? q).map fun player => player.withoutDecision.withSource source
      else t.player? q := by
  have htells : (t.heard p decision source notices).player? q =
      ((({ t with now := decision.due }).modifyPlayer p
        Player.withoutDecision).modifyPlayer p (·.withSource source)).player? q := by
    rw [heard, foldl_tell_eq]
    rfl
  rw [htells]
  by_cases heq : p = q
  · simp only [player?_modifyPlayer, heq, if_true, Option.map_map]
    rfl
  · simp only [player?_modifyPlayer, heq, if_false]
    rfl

theorem games_setGame_of_eq_some {game : Game} (hgame : t.game? g = some game)
    (next : Game) (h : GameId) :
    (t.setGame g next).games[h]? = if g = h then some (.held next) else t.games[h]? := by
  have hsize : g < t.games.size := by
    refine Nat.lt_of_not_le fun hsize => ?_
    rw [game?, Array.getElem?_eq_none hsize] at hgame
    exact absurd hgame (by simp)
  rw [setGame, Array.getElem?_setIfInBounds, if_pos hsize]

theorem game?_setGame_of_eq_some {game : Game} (hgame : t.game? g = some game)
    (next : Game) (h : GameId) :
    (t.setGame g next).game? h = if g = h then some next else t.game? h := by
  rw [game?, games_setGame_of_eq_some hgame]
  split
  · rfl
  · rfl

theorem decision?_eq_some_iff {decision : Decision} :
    t.decision? p = some decision ↔
      ∃ player, t.player? p = some player ∧ player.pending? = some decision :=
  Option.bind_eq_some_iff

theorem decision?_modifyPlayer (t : Tournament) (p q : PlayerId) (change : Player → Player)
    (h : ∀ player, (change player).pending? = player.pending?) :
    (t.modifyPlayer p change).decision? q = t.decision? q := by
  rw [decision?, player?_modifyPlayer, decision?]
  split
  · cases t.player? q with
    | none => rfl
    | some player => exact h player
  · rfl

theorem decision?_holding (t : Tournament) (p q : PlayerId) (choices : List Move) :
    (t.modifyPlayer p (·.holding choices)).decision? q = t.decision? q :=
  t.decision?_modifyPlayer p q _ fun player => player.pending?_holding choices

theorem decision?_of_conduct_eq {player : Player} {decision : Decision} {delay : UInt64}
    {source : RandomSource} (hplayer : t.player? p = some player)
    (hconduct : player.conduct = .automated delay source (some decision)) :
    t.decision? p = some decision :=
  decision?_eq_some_iff.2 ⟨player, hplayer, by rw [Player.pending?, hconduct]⟩

theorem decision?_withoutDecision (t : Tournament) (p q : PlayerId) :
    (t.modifyPlayer p Player.withoutDecision).decision? q =
      if p = q then none else t.decision? q := by
  rw [decision?, player?_modifyPlayer]
  split
  · cases t.player? q <;> simp
  · rfl

@[simp] theorem decision?_heedAll_tell (t : Tournament) (g : GameId)
    (heading : List Notice) (p : PlayerId) :
    (t.heedAll g (heading.map .tell)).decision? p = t.decision? p := by
  rw [decision?, player?_heedAll_tell, decision?]

theorem decision?_dismiss (t : Tournament) (p q : PlayerId) :
    (t.dismiss p).decision? q = if p = q then none else t.decision? q := by
  rw [decision?, player?_dismiss]
  split
  · cases t.player? q <;> simp
  · rfl

theorem decision?_heedAll_dismiss (t : Tournament) (g : GameId) (players : List PlayerId)
    (q : PlayerId) :
    (t.heedAll g (players.map .dismiss)).decision? q =
      if q ∈ players then none else t.decision? q := by
  induction players generalizing t with
  | nil => rfl
  | cons p rest ih =>
      refine (ih (t.dismiss p)).trans ?_
      rw [decision?_dismiss]
      by_cases hrest : q ∈ rest
      · rw [if_pos hrest, if_pos (List.mem_cons_of_mem p hrest)]
      · rw [if_neg hrest]
        by_cases heq : p = q
        · rw [if_pos heq, if_pos (heq ▸ List.mem_cons_self)]
        · rw [if_neg heq, if_neg]
          rw [List.mem_cons, not_or]
          exact ⟨fun h => heq h.symm, hrest⟩

theorem decision?_heedAll_dismissals (t : Tournament) (g : GameId) (heading : List Notice)
    (game : Game) (q : PlayerId) :
    (t.heedAll g (heading.map .tell ++ game.dismissals)).decision? q =
      if q ∈ game.players then none else t.decision? q := by
  rw [game.dismissals_eq, heedAll_append, decision?_heedAll_dismiss, decision?_heedAll_tell]

theorem decision?_heedAll_prompt_of_ne (t : Tournament) (g : GameId) (heading : List Notice)
    (seat : Option PlayerId) (choices : List Move) (q : PlayerId)
    (hother : seat = some q → t.isAutomated q = false) :
    (t.heedAll g (heading.map .tell ++
      seat.toList.map fun p => .prompt p choices)).decision? q = t.decision? q := by
  rw [heedAll_append]
  cases seat with
  | none => exact decision?_heedAll_tell t g heading q
  | some p =>
      have hnotify : (t.heedAll g (heading.map .tell)).player? q = t.player? q :=
        player?_heedAll_tell t g heading q
      show ((t.heedAll g (heading.map .tell)).notify p g choices).decision? q = _
      rw [decision?, player?_notify, hnotify, decision?]
      by_cases heq : p = q
      · rw [if_pos heq]
        have hmanual := hother (congrArg some heq)
        unfold isAutomated at hmanual
        cases hplayer : t.player? q with
        | none => rfl
        | some player =>
            rw [hplayer, Option.any_some] at hmanual
            show (player.told _ g choices).pending? = player.pending?
            rw [Player.pending?_eq_none_of_not_isAutomated _ hmanual,
              Player.pending?_eq_none_of_not_isAutomated]
            rw [Player.isAutomated_told, hmanual]
      · rw [if_neg heq]

theorem exists_decision?_heedAll_prompt (t : Tournament) (g : GameId)
    (heading : List Notice) (choices : List Move) (hautomated : t.isAutomated p = true) :
    ∃ due, (t.heedAll g (heading.map .tell ++
      (some p).toList.map fun p => .prompt p choices)).decision? p =
        some ⟨due, g, choices⟩ := by
  rw [heedAll_append]
  obtain ⟨player, hplayer, hplayerAutomated⟩ := (Option.any_eq_true _ _).1 hautomated
  obtain ⟨due, hdue⟩ := player.exists_pending?_told t.now g choices hplayerAutomated
  refine ⟨due, ?_⟩
  show ((t.heedAll g (heading.map .tell)).notify p g choices).decision? p = _
  rw [decision?, player?_notify, if_pos rfl, player?_heedAll_tell, hplayer, now_heedAll_tell]
  exact hdue

theorem decision?_heard (t : Tournament) (p q : PlayerId) (decision : Decision)
    (source : RandomSource) (notices : List Notice) :
    (t.heard p decision source notices).decision? q =
      if p = q then none else t.decision? q := by
  rw [decision?, player?_heard]
  split
  · cases t.player? q <;> simp
  · rfl

/-- A decision that is pending after the effects of a call is a new one, of a player that
has been given the turn, or it was pending before. In that case, if the turn was open and
the player seated, the call was a move, and the turn is still open. -/
theorem decision?_heedAll_cases {call : Call} {game next : Game} {effects : List Effect}
    {decision : Decision} (houtcome : game.Outcome next call effects)
    (hpending : (t.heedAll g effects).decision? p = some decision) :
    (∃ role due, decision = ⟨due, g, next.choices role⟩ ∧ t.isAutomated p = true ∧
      game.seated role = some p ∧ (∀ other, next.seated other = game.seated other) ∧
      next.stopped = false ∧ next.phase = .toMove role) ∨
    (t.decision? p = some decision ∧
      (game.stopped = false → game.phase.toMove?.isSome = true → p ∈ game.players →
        (∃ role move, call = .play role move ∧ game.phase = .toMove role) ∧
        (∀ other, next.seated other = game.seated other) ∧
        next.stopped = false ∧ next.phase.toMove?.isSome = true)) := by
  cases houtcome with
  | seated attacker defender _ _ hturn =>
      refine .inr ⟨hpending, fun _ hopen _ => ?_⟩
      rw [hturn] at hopen
      exact absurd hopen (by simp)
  | prompted _ heading role hseats hstopped hphase hturn =>
      by_cases hprompted : game.seated role = some p ∧ t.isAutomated p = true
      · obtain ⟨hseated, hautomated⟩ := hprompted
        rw [hseated] at hpending
        obtain ⟨due, hdue⟩ := exists_decision?_heedAll_prompt t g heading
          (next.choices role) hautomated
        exact .inl ⟨role, due, (Option.some.inj (hdue.symm.trans hpending)).symm, hautomated,
          hseated, hseats, hstopped, hphase⟩
      · rw [decision?_heedAll_prompt_of_ne _ _ _ _ _ _ fun hseated =>
          Bool.eq_false_iff.2 fun hautomated => hprompted ⟨hseated, hautomated⟩] at hpending
        refine .inr ⟨hpending, fun _ hopen _ => ⟨?_, hseats, hstopped, by rw [hphase]; rfl⟩⟩
        rcases hturn with hclosed | ⟨move, hcall, hmoved⟩
        · rw [hclosed] at hopen
          exact absurd hopen (by simp)
        · exact ⟨role.opponent, move, hcall, hmoved⟩
  | dismissed _ heading =>
      rw [decision?_heedAll_dismissals] at hpending
      split at hpending
      · exact absurd hpending (by simp)
      · next hother => exact .inr ⟨hpending, fun _ _ hseated => absurd hseated hother⟩
  | closed heading _ _ _ hclosed =>
      rw [decision?_heedAll_tell] at hpending
      refine .inr ⟨hpending, fun hstopped hopen _ => ?_⟩
      rcases hclosed with hclosed | hclosed
      · exact absurd (hstopped.symm.trans hclosed) (by simp)
      · rw [hclosed] at hopen
        exact absurd hopen (by simp)

theorem decision?_eq_some_of_heedAll {call : Call} {game next : Game} {effects : List Effect}
    {decision : Decision} (houtcome : game.Outcome next call effects) (hfor : decision.game ≠ g)
    (hpending : (t.heedAll g effects).decision? p = some decision) :
    t.decision? p = some decision := by
  rcases decision?_heedAll_cases houtcome hpending with ⟨role, due, rfl, _⟩ | ⟨hold, _⟩
  · exact absurd rfl hfor
  · exact hold

theorem map_player?_modifyPlayer {α : Type} (view : Player → α) (t : Tournament)
    (p q : PlayerId) (change : Player → Player) (h : ∀ player, view (change player) = view player) :
    ((t.modifyPlayer p change).player? q).map view = (t.player? q).map view := by
  rw [player?_modifyPlayer]
  split
  · rw [Option.map_map]
    congr 1
    funext player
    exact h player
  · rfl

theorem map_player?_heedAll {α : Type} (view : Player → α)
    (htold : ∀ player now g choices, view (Player.told player now g choices) = view player)
    (hdismissed : ∀ player, view (Player.dismissed player) = view player) (t : Tournament)
    (g : GameId) (effects : List Effect) (q : PlayerId) :
    ((t.heedAll g effects).player? q).map view = (t.player? q).map view := by
  induction effects generalizing t with
  | nil => rfl
  | cons effect rest ih =>
      refine (ih (t.heed g effect)).trans ?_
      cases effect with
      | tell notice => rfl
      | dismiss p =>
          rw [heed, player?_dismiss]
          split
          · rw [Option.map_map]
            congr 1
            funext player
            exact hdismissed player
          · rfl
      | prompt p choices =>
          rw [heed, player?_notify]
          split
          · rw [Option.map_map]
            congr 1
            funext player
            exact htold player t.now g choices
          · rfl

theorem nature?_modifyPlayer (t : Tournament) (p q : PlayerId) (change : Player → Player)
    (h : ∀ player, (change player).nature = player.nature) :
    (t.modifyPlayer p change).nature? q = t.nature? q :=
  t.map_player?_modifyPlayer Player.nature p q change h

theorem nature?_holding (t : Tournament) (p q : PlayerId) (choices : List Move) :
    (t.modifyPlayer p (·.holding choices)).nature? q = t.nature? q :=
  t.nature?_modifyPlayer p q _ fun player => player.nature_holding choices

@[simp] theorem nature?_heedAll (t : Tournament) (g : GameId) (effects : List Effect)
    (q : PlayerId) : (t.heedAll g effects).nature? q = t.nature? q :=
  t.map_player?_heedAll Player.nature Player.nature_told Player.nature_dismissed g effects q

@[simp] theorem nature?_heard (t : Tournament) (p q : PlayerId) (decision : Decision)
    (source : RandomSource) (notices : List Notice) :
    (t.heard p decision source notices).nature? q = t.nature? q := by
  rw [nature?, player?_heard]
  split
  · rw [Option.map_map, nature?]
    congr 1
    funext player
    exact (player.withoutDecision.nature_withSource source).trans
      player.nature_withoutDecision
  · rfl

theorem isAutomated_of_nature? {s : Tournament} (h : s.nature? p = t.nature? p) :
    s.isAutomated p = t.isAutomated p := by
  have hany (u : Tournament) : u.isAutomated p = (u.nature? p).any Player.isAutomated := by
    rw [isAutomated, nature?]
    cases u.player? p <;> simp
  rw [hany, hany, h]

theorem role?_of_nature? {s : Tournament} (h : s.nature? p = t.nature? p) :
    s.role? p = t.role? p := by
  have hmap (u : Tournament) : u.role? p = (u.nature? p).map Player.role := by
    rw [role?, nature?]
    cases u.player? p <;> simp
  rw [hmap, hmap, h]

theorem source?_of_map_player? {s : Tournament}
    (h : (s.player? p).map Player.source? = (t.player? p).map Player.source?) :
    s.source? p = t.source? p := by
  have hjoin (u : Tournament) : u.source? p = ((u.player? p).map Player.source?).join := by
    rw [source?]
    cases u.player? p with
    | none => rfl
    | some player => rfl
  rw [hjoin, hjoin, h]

@[simp] theorem source?_setGame (t : Tournament) (g : GameId) (game : Game) (p : PlayerId) :
    (t.setGame g game).source? p = t.source? p := rfl

@[simp] theorem source?_heedAll (t : Tournament) (g : GameId) (effects : List Effect)
    (q : PlayerId) : (t.heedAll g effects).source? q = t.source? q :=
  source?_of_map_player? (t.map_player?_heedAll Player.source? Player.source?_told
    Player.source?_dismissed g effects q)

theorem source?_holding (t : Tournament) (p q : PlayerId) (choices : List Move) :
    (t.modifyPlayer p (·.holding choices)).source? q = t.source? q :=
  source?_of_map_player? (t.map_player?_modifyPlayer Player.source? p q _ fun player =>
    player.source?_holding choices)

theorem source?_withoutDecision (t : Tournament) (p q : PlayerId) :
    (t.modifyPlayer p Player.withoutDecision).source? q = t.source? q :=
  source?_of_map_player? (t.map_player?_modifyPlayer Player.source? p q _
    Player.source?_withoutDecision)

theorem source?_heard (t : Tournament) (p q : PlayerId) (decision : Decision)
    (source : RandomSource) (notices : List Notice) :
    (t.heard p decision source notices).source? q =
      if p = q then (t.source? q).map fun _ => source else t.source? q := by
  rw [Tournament.source?, player?_heard, Tournament.source?]
  split
  · cases t.player? q <;> simp
  · rfl

def lines (t : Tournament) (p : PlayerId) : List (List Act) :=
  ((t.player? p).map Player.script).getD []

theorem lines_modifyPlayer (t : Tournament) (p q : PlayerId) (change : Player → Player)
    (h : ∀ player, (change player).script = player.script) :
    (t.modifyPlayer p change).lines q = t.lines q := by
  rw [lines, player?_modifyPlayer, lines]
  split
  · cases t.player? q with
    | none => rfl
    | some player => exact h player
  · rfl

theorem lines_holding (t : Tournament) (p q : PlayerId) (choices : List Move) :
    (t.modifyPlayer p (·.holding choices)).lines q = t.lines q :=
  t.lines_modifyPlayer p q _ fun player => player.script_holding choices

theorem lines_notify (t : Tournament) (p q : PlayerId) (g : GameId) (choices : List Move) :
    (t.notify p g choices).lines q = if p = q then (t.lines q).tail else t.lines q := by
  rw [lines, player?_notify, lines]
  split
  · cases t.player? q with
    | none => rfl
    | some player => exact player.script_told t.now g choices
  · rfl

theorem lines_heed_isSuffix (t : Tournament) (g : GameId) (effect : Effect) (q : PlayerId) :
    (t.heed g effect).lines q <:+ t.lines q := by
  cases effect with
  | tell notice => exact List.suffix_rfl
  | dismiss p =>
      rw [heed, lines, player?_dismiss, lines]
      split
      · cases t.player? q with
        | none => exact List.suffix_rfl
        | some player =>
            show player.dismissed.script <:+ player.script
            exact player.script_dismissed.symm ▸ List.suffix_rfl
      · exact List.suffix_rfl
  | prompt p choices =>
      rw [heed, lines_notify]
      split
      · exact List.tail_suffix _
      · exact List.suffix_rfl

theorem lines_heedAll_isSuffix (t : Tournament) (g : GameId) (effects : List Effect)
    (q : PlayerId) : (t.heedAll g effects).lines q <:+ t.lines q := by
  induction effects generalizing t with
  | nil => exact List.suffix_rfl
  | cons effect rest ih => exact (ih (t.heed g effect)).trans (lines_heed_isSuffix t g effect q)

theorem lines_heard (t : Tournament) (p q : PlayerId) (decision : Decision)
    (source : RandomSource) (notices : List Notice) :
    (t.heard p decision source notices).lines q = t.lines q := by
  rw [lines, player?_heard, lines]
  split
  · cases t.player? q with
    | none => rfl
    | some player =>
        exact (player.withoutDecision.script_withSource source).trans
          player.script_withoutDecision
  · rfl

def IsCalm (t : Tournament) : Prop := ∀ notice ∈ t.notices, notice.severity ≠ .error

theorem notices_dismiss (t : Tournament) (p : PlayerId) : (t.dismiss p).notices = t.notices := by
  unfold dismiss
  split
  · rfl
  · split <;> rfl

theorem notices_notify (t : Tournament) (p : PlayerId) (g : GameId) (choices : List Move) :
    (t.notify p g choices).notices = t.notices := by
  unfold notify
  split
  · rfl
  · split <;> rfl

theorem IsCalm.heedAll (h : t.IsCalm) (g : GameId) {effects : List Effect}
    (heffects : ∀ notice, .tell notice ∈ effects → notice.severity ≠ .error) :
    (t.heedAll g effects).IsCalm := by
  induction effects generalizing t with
  | nil => exact h
  | cons effect rest ih =>
      have hrest := fun notice hnotice => heffects notice (List.mem_cons_of_mem effect hnotice)
      cases effect with
      | tell notice =>
          refine ih (t := t.tell notice) (fun other hother => ?_) hrest
          rcases Array.mem_push.1 hother with hold | rfl
          · exact h other hold
          · exact heffects other List.mem_cons_self
      | dismiss p => exact ih (t := t.dismiss p) (fun other => t.notices_dismiss p ▸ h other) hrest
      | prompt p choices =>
          exact ih (t := t.notify p g choices)
            (fun other => t.notices_notify p g choices ▸ h other) hrest

theorem IsCalm.heard (h : t.IsCalm) (p : PlayerId) (decision : Decision)
    (source : RandomSource) {notices : List Notice}
    (hnotices : ∀ notice ∈ notices, notice.severity ≠ .error) :
    (t.heard p decision source notices).IsCalm := by
  intro notice hnotice
  have hafter : (t.heard p decision source notices).notices = t.notices ++ notices := by
    rw [Tournament.heard, foldl_tell_eq]
    rfl
  rw [hafter, ← Array.mem_toList_iff, Array.toList_appendList, List.mem_append,
    Array.mem_toList_iff] at hnotice
  rcases hnotice with hold | hnew
  · exact h notice hold
  · exact hnotices notice hnew

end Tournament

end BisimPlay
