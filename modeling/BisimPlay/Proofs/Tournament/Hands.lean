import BisimPlay.Proofs.Tournament.Refusals

/-!
# What people hold

A person is told its choices when it is given the turn, and holds them until it is told others
or plays one of them. So when a game waits for a person, the person should hold the choices of
its role there. What may come in between is a prompt by another game and a choice that is played
in another game. Where people sit in one game only and choose in it only, neither happens, and
they hold the choices of the turn whenever a call has come back (`heldChoices_eq_of_attends`).

A choice leaves the hand before its move is made. What is told from inside the call then stays,
however deep calls nest, because the call fills the hand again only if the move was refused, and
a refused move tells nobody anything (`choose_cases`).
-/

namespace BisimPlay

namespace Player

def hand? (player : Player) : Option (List Move) :=
  match player.conduct with
  | .human choices => some choices
  | _ => none

variable (player : Player) (choices : List Move)

theorem hand?_eq_some_iff {player : Player} {choices : List Move} :
    player.hand? = some choices ↔ player.isHuman = true ∧ player.heldChoices = choices := by
  cases h : player.conduct <;> simp [hand?, isHuman, heldChoices, h]

@[simp] theorem isHuman_nature : player.nature.isHuman = player.isHuman := by
  cases h : player.conduct <;> simp [nature, isHuman, Conduct.nature, h]

@[simp] theorem hand?_told (now : Nat) (g : GameId) :
    (player.told now g choices).hand? = player.hand?.map fun _ => choices := by
  cases h : player.conduct <;> simp [told, hand?, holding, h]

@[simp] theorem hand?_dismissed : player.dismissed.hand? = player.hand? := by
  cases h : player.conduct <;> simp [dismissed, hand?, withoutDecision, h]

@[simp] theorem hand?_withoutDecision : player.withoutDecision.hand? = player.hand? := by
  cases h : player.conduct <;> simp [withoutDecision, hand?, h]

@[simp] theorem hand?_withSource (source : RandomSource) :
    (player.withSource source).hand? = player.hand? := by
  cases h : player.conduct <;> simp [withSource, hand?, h]

end Player

namespace Game

variable {game next : Game} {role holder : Role} {effects : List Effect}

theorem of_phase_handOver_eq (h : (game.handOver role).1.phase = .toMove holder) :
    role = holder ∧ game.choices role ≠ [] ∧
      (game.handOver role).1.choices role = game.choices role ∧
      (game.handOver role).2 =
        (game.seated role).toList.map fun player => .prompt player (game.choices role) := by
  by_cases hnone : game.choices role = []
  · obtain ⟨heading, heq⟩ := exists_handOver_eq_of_nil hnone
    rw [heq] at h
    exact Phase.noConfusion h
  · rw [handOver_eq_of_ne_nil hnone] at h ⊢
    exact ⟨Phase.toMove.inj h, hnone, rfl, rfl⟩

theorem prompt_not_mem_stop (game : Game) (p : PlayerId) (choices : List Move) :
    .prompt p choices ∉ game.stop.2 := by
  intro hmem
  obtain ⟨heading, heq⟩ := game.exists_stop_eq
  rw [heq] at hmem
  rcases List.mem_append.1 hmem with htell | hdismissal
  · exact absurd (Effect.isQuiet_of_mem_map_tell htell) (by simp [Effect.isQuiet])
  · split at hdismissal
    · exact absurd (isQuiet_of_mem_dismissals hdismissal) (by simp [Effect.isQuiet])
    · exact absurd hdismissal List.not_mem_nil

/-- When a role holds the turn after a call, its player has just been prompted with its choices,
of which there are some, or the call was a stop and nobody has been prompted. -/
theorem prompted_or_stop_of_on_eq_ok {call : Call} (hcall : call.on game = .ok (next, effects))
    (hphase : next.phase = .toMove role) :
    (next.choices role ≠ [] ∧ ∃ heading : List Notice, effects = heading.map .tell ++
      (game.seated role).toList.map fun player => .prompt player (next.choices role)) ∨
    (call = .stop ∧ next = game.frozen ∧ ∀ p choices, .prompt p choices ∉ effects) := by
  cases call with
  | seat attacker defender =>
      obtain ⟨_, _, _, hturn, rfl, _⟩ := of_on_seat_eq_ok hcall
      rw [show game.phase = .toMove role from hphase] at hturn
      exact absurd hturn (by simp [Phase.toMove?])
  | start =>
      obtain ⟨_, _, _, _, rfl, rfl⟩ := of_start_eq_ok hcall
      obtain ⟨rfl, hchoices, hkept, hprompt⟩ := of_phase_handOver_eq hphase
      refine .inl ⟨hkept ▸ hchoices, [⟨.info, "starting game at " ++ game.rules.root.text⟩], ?_⟩
      rw [hprompt, hkept]
      rfl
  | play mover move =>
      obtain ⟨_, _, _, haccept⟩ := play_eq_ok_iff.1 hcall
      obtain ⟨heading, heq⟩ := game.exists_accept_eq mover move
      obtain ⟨rfl, rfl⟩ := Prod.mk.inj (heq.symm.trans haccept)
      obtain ⟨rfl, hchoices, hkept, hprompt⟩ := of_phase_handOver_eq hphase
      have hseats : (game.moved mover move).seated mover.opponent = game.seated mover.opponent :=
        seated_congr rfl rfl _
      exact .inl ⟨hkept ▸ hchoices, heading, by rw [hprompt, hkept, hseats]⟩
  | stop =>
      have heq := Except.ok.inj hcall
      refine .inr ⟨rfl, ?_, fun p choices => ?_⟩
      · rw [← show game.stop.1 = next from congrArg Prod.fst heq, stop_fst, frozen]
      · rw [← show game.stop.2 = effects from congrArg Prod.snd heq]
        exact game.prompt_not_mem_stop p choices
  | abort fault =>
      obtain ⟨rfl, rfl⟩ := Prod.mk.inj (Except.ok.inj hcall)
      exact Phase.noConfusion hphase

theorem seated_of_on_eq_ok {call : Call} (hcall : call.on game = .ok (next, effects))
    (hseat : ∀ attacker defender, call ≠ .seat attacker defender) (role : Role) :
    next.seated role = game.seated role := by
  cases outcome_of_on_eq_ok hcall with
  | seated attacker defender => exact absurd rfl (hseat attacker defender)
  | prompted _ _ _ hseats => exact hseats role
  | dismissed _ _ hseats => exact hseats role
  | closed _ _ hseats => exact hseats role

end Game

namespace Tournament

def hand? (t : Tournament) (p : PlayerId) : Option (List Move) :=
  (t.player? p).bind Player.hand?

def isPerson (t : Tournament) (p : PlayerId) : Bool := (t.player? p).any Player.isHuman

def Sits (t : Tournament) (p : PlayerId) (g : GameId) (role : Role) : Prop :=
  ∃ game, t.game? g = some game ∧ game.seated role = some p

variable {t s : Tournament} {g h : GameId} {p q : PlayerId} {role : Role} {choices : List Move}
  {effects : List Effect}

theorem hand?_eq_some_iff :
    t.hand? p = some choices ↔
      ∃ player, t.player? p = some player ∧ player.isHuman = true ∧
        player.heldChoices = choices := by
  simp only [hand?, Option.bind_eq_some_iff, Player.hand?_eq_some_iff]

theorem isPerson_of_hand?_eq_some (h : t.hand? p = some choices) : t.isPerson p = true := by
  obtain ⟨player, hplayer, hhuman, _⟩ := hand?_eq_some_iff.1 h
  rw [isPerson, hplayer, Option.any_some, hhuman]

theorem isPerson_of_nature? (h : s.nature? p = t.nature? p) : s.isPerson p = t.isPerson p := by
  have hany (u : Tournament) : u.isPerson p = (u.nature? p).any Player.isHuman := by
    rw [isPerson, nature?]
    cases u.player? p <;> simp
  rw [hany, hany, h]

theorem hand?_modifyPlayer (t : Tournament) (p q : PlayerId) (change : Player → Player)
    (h : ∀ player, (change player).hand? = player.hand?) :
    (t.modifyPlayer p change).hand? q = t.hand? q := by
  rw [hand?, player?_modifyPlayer, hand?]
  split
  · cases t.player? q with
    | none => rfl
    | some player => exact h player
  · rfl

theorem hand?_holding_of_ne (hne : p ≠ q) (choices : List Move) :
    (t.modifyPlayer p (·.holding choices)).hand? q = t.hand? q := by
  rw [hand?, player?_modifyPlayer, if_neg hne, hand?]

theorem hand?_notify (t : Tournament) (p q : PlayerId) (g : GameId) (choices : List Move) :
    (t.notify p g choices).hand? q =
      if p = q then (t.hand? q).map fun _ => choices else t.hand? q := by
  rw [hand?, player?_notify, hand?]
  split
  · cases t.player? q with
    | none => rfl
    | some player => exact player.hand?_told choices t.now g
  · rfl

theorem hand?_dismiss (t : Tournament) (p q : PlayerId) : (t.dismiss p).hand? q = t.hand? q := by
  rw [hand?, player?_dismiss, hand?]
  split
  · cases t.player? q with
    | none => rfl
    | some player => exact player.hand?_dismissed
  · rfl

theorem hand?_heedAll_of_not_mem (hquiet : ∀ choices, .prompt q choices ∉ effects) :
    (t.heedAll g effects).hand? q = t.hand? q := by
  induction effects generalizing t with
  | nil => rfl
  | cons effect rest ih =>
      have hrest := ih (t := t.heed g effect) fun choices hmem =>
        hquiet choices (List.mem_cons_of_mem effect hmem)
      refine hrest.trans ?_
      cases effect with
      | tell notice => rfl
      | dismiss p => exact t.hand?_dismiss p q
      | prompt p choices =>
          have hne : p ≠ q := by
            rintro rfl
            exact hquiet choices List.mem_cons_self
          rw [heed, hand?_notify, if_neg hne]

theorem hand?_heedAll_prompt (t : Tournament) (g : GameId) (heading : List Notice)
    (choices : List Move) :
    (t.heedAll g (heading.map .tell ++
      (some p).toList.map fun player => .prompt player choices)).hand? p =
        (t.hand? p).map fun _ => choices := by
  have htold : (t.heedAll g (heading.map .tell)).hand? p = t.hand? p := by
    rw [hand?, player?_heedAll_tell, hand?]
  rw [heedAll_append]
  exact (hand?_notify _ p p g choices).trans (by rw [if_pos rfl, htold])

theorem hand?_heard (t : Tournament) (p q : PlayerId) (decision : Decision)
    (source : RandomSource) (notices : List Notice) :
    (t.heard p decision source notices).hand? q = t.hand? q := by
  rw [hand?, player?_heard, hand?]
  split
  · cases t.player? q <;> simp
  · rfl

theorem sits_of_sits_heedAll {call : Call} {game next : Game} (hgame : t.game? h = some game)
    (hcall : call.on game = .ok (next, effects))
    (hseat : ∀ attacker defender, call ≠ .seat attacker defender)
    (hsits : ((t.setGame h next).heedAll h effects).Sits p g role) : t.Sits p g role := by
  obtain ⟨found, hfound, hseated⟩ := hsits
  rw [game?_heedAll, game?_setGame_of_eq_some hgame] at hfound
  split at hfound
  · next heq =>
      obtain rfl := Option.some.inj hfound
      exact ⟨game, heq ▸ hgame, (Game.seated_of_on_eq_ok hcall hseat role).symm.trans hseated⟩
  · exact ⟨found, hfound, hseated⟩

/-- A person that is seated in the game is seated nowhere else. -/
def PeopleSitOnlyIn (g : GameId) (t : Tournament) : Prop :=
  ∀ p role h place, t.isPerson p = true → t.Sits p g role → t.Sits p h place → h = g

/-- The players of a game are seated for their own roles, and its people nowhere else. -/
structure IsPlaced (g : GameId) (t : Tournament) : Prop where
  role?_eq : ∀ p role, t.Sits p g role → t.role? p = some role
  peopleSitOnlyIn : t.PeopleSitOnlyIn g

/-- In addition, a person that holds the turn holds its choices, and has some. -/
structure IsServed (g : GameId) (t : Tournament) : Prop extends IsPlaced g t where
  isInHand : ∀ game role p choices, t.game? g = some game → game.phase = .toMove role →
    game.seated role = some p → t.hand? p = some choices →
      choices = game.choices role ∧ choices ≠ []

theorem IsPlaced.mono (hplaced : t.IsPlaced g)
    (hsits : ∀ p h role, s.Sits p h role → t.Sits p h role)
    (hnatures : ∀ p, s.nature? p = t.nature? p) : s.IsPlaced g where
  role?_eq p role hsitting := by
    rw [role?_of_nature? (hnatures p)]
    exact hplaced.role?_eq p role (hsits p g role hsitting)
  peopleSitOnlyIn p role h place hperson hsitting hother := by
    rw [isPerson_of_nature? (hnatures p)] at hperson
    exact hplaced.peopleSitOnlyIn p role h place hperson (hsits p g role hsitting)
      (hsits p h place hother)

theorem IsServed.mono (hserved : t.IsServed g)
    (hgames : ∀ h game, s.game? h = some game → t.game? h = some game)
    (hnatures : ∀ p, s.nature? p = t.nature? p)
    (hhands : ∀ p role, t.isPerson p = true → t.Sits p g role → s.hand? p = t.hand? p) :
    s.IsServed g where
  toIsPlaced := hserved.toIsPlaced.mono (fun _ h _ ⟨game, hgame, hseated⟩ =>
    ⟨game, hgames h game hgame, hseated⟩) hnatures
  isInHand game role p choices hgame hphase hseated hhand := by
    have hbefore := hgames g game hgame
    have hperson := isPerson_of_hand?_eq_some hhand
    rw [isPerson_of_nature? (hnatures p)] at hperson
    rw [hhands p role hperson ⟨game, hbefore, hseated⟩] at hhand
    exact hserved.isInHand game role p choices hbefore hphase hseated hhand

theorem IsServed.of_players_eq (hserved : t.IsServed g) (hplayers : s.players = t.players)
    (hgames : ∀ h game, s.game? h = some game → t.game? h = some game) : s.IsServed g := by
  have hplayer (p : PlayerId) : s.player? p = t.player? p := by
    rw [player?, hplayers, player?]
  refine hserved.mono hgames (fun p => ?_) fun p _ _ _ => ?_
  · rw [nature?, hplayer, nature?]
  · rw [hand?, hplayer, hand?]

/-- A call serves whoever holds the turn after it, unless it is a stop, which leaves the turn and
all hands as they are. -/
theorem IsPlaced.isServed_heedAll (hplaced : t.IsPlaced g) {call : Call} {game next : Game}
    (hgame : t.game? g = some game) (hcall : call.on game = .ok (next, effects))
    (hseat : ∀ attacker defender, call ≠ .seat attacker defender)
    (hstop : call = .stop → t.IsServed g) :
    ((t.setGame g next).heedAll g effects).IsServed g where
  toIsPlaced := hplaced.mono (fun _ _ _ => sits_of_sits_heedAll hgame hcall hseat)
    (nature?_heedAll _ g effects)
  isInHand found role p choices hfound hphase hseated hhand := by
    rw [game?_heedAll, game?_setGame_of_eq_some hgame, if_pos rfl] at hfound
    obtain rfl := Option.some.inj hfound
    rw [Game.seated_of_on_eq_ok hcall hseat] at hseated
    rcases Game.prompted_or_stop_of_on_eq_ok hcall hphase with
      ⟨hchoices, heading, rfl⟩ | ⟨hstopped, rfl, hquiet⟩
    · rw [hseated, hand?_heedAll_prompt, Option.map_eq_some_iff] at hhand
      obtain ⟨_, _, rfl⟩ := hhand
      exact ⟨rfl, hchoices⟩
    · rw [hand?_heedAll_of_not_mem (hquiet p)] at hhand
      exact (hstop hstopped).isInHand game role p choices hgame hphase hseated hhand

theorem IsServed.heedAll_of_ne (hserved : t.IsServed g) (hne : h ≠ g) {call : Call}
    {game next : Game} (hgame : t.game? h = some game)
    (hcall : call.on game = .ok (next, effects))
    (hseat : ∀ attacker defender, call ≠ .seat attacker defender) :
    ((t.setGame h next).heedAll h effects).IsServed g where
  toIsPlaced := hserved.toIsPlaced.mono (fun _ _ _ => sits_of_sits_heedAll hgame hcall hseat)
    (nature?_heedAll _ h effects)
  isInHand found role p choices hfound hphase hseated hhand := by
    rw [game?_heedAll, game?_setGame_of_eq_some hgame, if_neg hne] at hfound
    have hperson := isPerson_of_hand?_eq_some hhand
    rw [isPerson_of_nature? (nature?_heedAll _ h effects p)] at hperson
    rw [hand?_heedAll_of_not_mem fun told hmem => ?_] at hhand
    · exact hserved.isInHand found role p choices hfound hphase hseated hhand
    · obtain ⟨place, hplace⟩ := Game.exists_seated_of_prompt_mem hcall hmem
      exact hne (hserved.peopleSitOnlyIn p role h place hperson ⟨found, hfound, hseated⟩
        ⟨game, hgame, hplace⟩)

theorem IsServed.heedAll (hserved : t.IsServed g) {call : Call} {game next : Game}
    (hgame : t.game? h = some game) (hcall : call.on game = .ok (next, effects))
    (hseat : ∀ attacker defender, call ≠ .seat attacker defender) :
    ((t.setGame h next).heedAll h effects).IsServed g := by
  by_cases heq : h = g
  · subst heq
    exact hserved.toIsPlaced.isServed_heedAll hgame hcall hseat fun _ => hserved
  · exact hserved.heedAll_of_ne heq hgame hcall hseat

def withoutSeating : Permit := fun _ _ call => ∀ attacker defender, call ≠ .seat attacker defender

theorem scriptsWithin_withoutSeating (t : Tournament) : t.ScriptsWithin withoutSeating := by
  rintro p line hline act hact call hmakes s g attacker defender rfl
  cases act with
  | play position =>
      obtain ⟨role, move, heq⟩ := hmakes
      exact Call.noConfusion heq
  | playForOpponent =>
      obtain ⟨role, move, heq⟩ := hmakes
      exact Call.noConfusion heq
  | stop => exact Call.noConfusion hmakes
  | abort =>
      obtain ⟨fault, heq⟩ := hmakes
      exact Call.noConfusion heq
  | start => exact Call.noConfusion hmakes

theorem IsServed.reaction (hserved : t.IsServed g) (hreaction : Reaction withoutSeating t s) :
    s.IsServed g := by
  cases hreaction with
  | tell notice => exact hserved.of_players_eq rfl fun _ _ => id
  | note p event => exact hserved.of_players_eq rfl fun _ _ => id
  | call h call hpermit hgame hcall => exact hserved.heedAll hgame hcall hpermit

/-- However deep calls nest, the game is served when they have come back. -/
theorem IsServed.reacts (hserved : t.IsServed g) (hreacts : Reacts withoutSeating t s) :
    s.IsServed g := by
  induction hreacts with
  | refl => exact hserved
  | tail _ hreaction ih => exact ih.reaction hreaction

theorem obeys_withoutSeating (t : Tournament) (g : GameId) : t.Obeys withoutSeating g :=
  .inl (t.scriptsWithin_withoutSeating.actsWithin g)

theorem seat_cases (t : Tournament) (h : GameId) (attacker defender : PlayerId) :
    (t.seat h attacker defender).2 = t ∨
    ∃ game, t.game? h = some game ∧ game.phase.toMove? = none ∧
      t.role? attacker = some .attacker ∧ t.role? defender = some .defender ∧
      (t.seat h attacker defender).2 =
        t.setGame h { game with attacker := some attacker, defender := some defender } := by
  rw [seat]
  split
  · next first second hfirst hsecond =>
      rw [changeBy]
      cases hgame : t.game? h with
      | none => exact .inl rfl
      | some game =>
          cases hcall : (Call.seat (attacker, first.role) (defender, second.role)).on game with
          | error fault =>
              rw [Call.on] at hcall
              exact .inl (by simp only [hcall])
          | ok result =>
              obtain ⟨next, effects⟩ := result
              obtain ⟨hattacker, hdefender, _, hturn, rfl, rfl⟩ := Game.of_on_seat_eq_ok hcall
              rw [Call.on] at hcall
              refine .inr ⟨game, rfl, hturn, ?_, ?_, by simp only [hcall, performer, carryOut_nil]⟩
              · rw [role?, hfirst, Option.map_some, ← hattacker]
              · rw [role?, hsecond, Option.map_some, ← hdefender]
  · exact .inl rfl

theorem IsServed.seat (hserved : t.IsServed g) (attacker defender : PlayerId)
    (hsits : (t.seat h attacker defender).2.PeopleSitOnlyIn g) :
    (t.seat h attacker defender).2.IsServed g := by
  rcases t.seat_cases h attacker defender with heq | ⟨game, hgame, hturn, hfirst, hsecond, heq⟩
  · rwa [heq]
  · rw [heq] at hsits ⊢
    have hgames := game?_setGame_of_eq_some hgame
      { game with attacker := some attacker, defender := some defender } g
    refine ⟨⟨fun p role ⟨found, hfound, hseated⟩ => ?_, hsits⟩,
      fun found role p choices hfound hphase hseated hhand => ?_⟩
    · rw [hgames] at hfound
      split at hfound
      · obtain rfl := Option.some.inj hfound
        cases role with
        | attacker =>
            obtain rfl := Option.some.inj hseated
            exact hfirst
        | defender =>
            obtain rfl := Option.some.inj hseated
            exact hsecond
      · exact hserved.role?_eq p role ⟨found, hfound, hseated⟩
    · rw [hgames] at hfound
      split at hfound
      · obtain rfl := Option.some.inj hfound
        rw [show game.phase = .toMove role from hphase] at hturn
        exact absurd hturn (by simp [Phase.toMove?])
      · exact hserved.isInHand found role p choices hfound hphase hseated hhand

/-- A choice leaves a hand that is dealt anew when its move is made, or that does not matter to
the game. -/
theorem IsServed.choose (hserved : t.IsServed g) (p : PlayerId) (index : Nat) (h : GameId)
    (hown : ∀ role, t.isPerson p = true → t.Sits p g role → h = g) :
    (t.choose p index h).2.IsServed g := by
  have hnatures (q : PlayerId) : (t.modifyPlayer p (·.holding [])).nature? q = t.nature? q :=
    t.nature?_holding p q []
  -- The hand of a person that is seated elsewhere may be emptied.
  have hemptied (hne : t.game? g = none ∨ h ≠ g) :
      (t.modifyPlayer p (·.holding [])).IsServed g := by
    refine hserved.mono (fun _ _ => id) hnatures fun q role hperson hsits => ?_
    refine hand?_holding_of_ne (fun heq => ?_) []
    subst heq
    rcases hne with hnone | hne
    · obtain ⟨game, hgame, _⟩ := hsits
      exact absurd (hnone.symm.trans hgame) (by simp)
    · exact hne (hown role hperson hsits)
  rcases t.choose_cases p index h with heq | ⟨hnone, heq⟩ | ⟨notice, heq⟩ |
    ⟨player, move, game, next, effects, hplayer, _, hgame, hcall, heq⟩
  · rwa [heq]
  · rw [heq]
    by_cases hsame : h = g
    · exact hemptied (.inl (hsame ▸ hnone))
    · exact hemptied (.inr hsame)
  · rw [heq]
    exact hserved.of_players_eq rfl fun _ _ => id
  · rw [heq]
    have hseat : ∀ attacker defender, Call.play player.role move ≠ .seat attacker defender :=
      fun _ _ => Call.noConfusion
    have hafter : (((t.modifyPlayer p (·.holding [])).setGame h next).heedAll h
        effects).IsServed g := by
      by_cases hsame : h = g
      · subst hsame
        refine IsPlaced.isServed_heedAll (t := t.modifyPlayer p _) ?_ hgame hcall hseat
          Call.noConfusion
        exact hserved.toIsPlaced.mono (fun _ _ _ => id) hnatures
      · exact (hemptied (.inr hsame)).heedAll_of_ne hsame hgame hcall hseat
    exact hafter.reacts (reacts_heedAll_carryOut hcall
      (.inl (scriptsWithin_withoutSeating _ |>.actsWithin h)))

theorem IsServed.take (hserved : t.IsServed g) {decision : Decision}
    (hpending : t.decision? p = some decision) : (t.take p decision).IsServed g := by
  rcases (isDiscipline_scriptsWithin _).take_cases t.scriptsWithin_withoutSeating hpending with
    ⟨_, heq⟩ | ⟨player, game, next, effects, delay, source, verdict, _, _, hgame, _, hcall,
      hreacts⟩
  · rw [heq]
    refine hserved.mono (fun _ _ => id) (fun q => ?_) fun q _ _ _ => ?_
    · exact nature?_modifyPlayer { t with now := decision.due } p q _ fun player =>
        player.nature_withoutDecision
    · exact hand?_modifyPlayer { t with now := decision.due } p q _ fun player =>
        player.hand?_withoutDecision
  · have hheard (source : RandomSource) (notices : List Notice) :
        (t.heard p decision source notices).IsServed g :=
      hserved.mono (fun h _ => (game?_heard t p decision source notices h).symm.trans)
        (nature?_heard t p · decision source notices)
        fun q _ _ _ => hand?_heard t p q decision source notices
    exact ((hheard _ _).heedAll ((game?_heard t p decision _ _ _).trans hgame) hcall
      (game.answer_ne_seat _ _)).reacts hreacts

theorem IsServed.wait (hserved : t.IsServed g) (time : Nat) :
    ({ t with now := time } : Tournament).IsServed g :=
  hserved.of_players_eq rfl fun _ _ => id

theorem IsServed.settle (hserved : t.IsServed g) (time n : Nat) :
    (settle time n t).IsServed g :=
  settle_induction (motive := fun s => s.IsServed g) time n hserved
    fun _ _ _ hserved hpending _ => hserved.take hpending

theorem IsServed.serve (hserved : t.IsServed g) {request : Request}
    (hrequest : t.Admits anyCall request)
    (hchoice : ∀ p index h role, request = .choose p index h → t.isPerson p = true →
      t.Sits p g role → h = g)
    (hsits : (t.serve request).2.PeopleSitOnlyIn g) : (t.serve request).2.IsServed g := by
  have hcalled (h : GameId) (call : Call)
      (hseat : ∀ attacker defender, call ≠ .seat attacker defender) :
      (t.changeBy t.performer h fun game => call.on game).2.IsServed g :=
    hserved.reacts (reacts_call (t.obeys_withoutSeating h) call hseat)
  cases request with
  | seat h attacker defender => exact hserved.seat attacker defender hsits
  | start h => exact hcalled h .start fun _ _ => Call.noConfusion
  | play h role move =>
      exact hserved.reacts (reacts_playBy (reacts_call (t.obeys_withoutSeating h)
        (.play role move) fun _ _ => Call.noConfusion))
  | choose p index h =>
      exact hserved.choose p index h fun role hperson hsitting =>
        hchoice p index h role rfl hperson hsitting
  | stop h => exact hcalled h .stop fun _ _ => Call.noConfusion
  | abort h fault => exact hcalled h (.abort fault) fun _ _ => Call.noConfusion
  | prompt p h choices => exact absurd hrequest id
  | dismiss p => exact absurd hrequest id
  | release h =>
      exact hserved.of_players_eq rfl fun _ _ => game?_of_release_eq_some
  | advance duration => exact (hserved.settle _ _).wait _

/-- What a tournament can come to when the people of a game sit in it only and choose in it only.
All else is free: whatever calls are made on it and on other games, whatever scripted players do
when they are prompted, and in whatever order decisions are taken. -/
inductive Attends (g : GameId) (t : Tournament) : Tournament → Prop
  | start : Attends g t t
  | serve {s : Tournament} (hattends : Attends g t s) (request : Request)
      (hrequest : s.Admits anyCall request)
      (hchoice : ∀ p index h role, request = .choose p index h → s.isPerson p = true →
        s.Sits p g role → h = g)
      (hsits : (s.serve request).2.PeopleSitOnlyIn g) : Attends g t (s.serve request).2
  | take {s : Tournament} (hattends : Attends g t s) (p : PlayerId) (decision : Decision)
      (hpending : s.decision? p = some decision) : Attends g t (s.take p decision)

theorem IsFresh.not_sits (hfresh : t.IsFresh) (p : PlayerId) (g : GameId) (role : Role) :
    ¬ t.Sits p g role := by
  rintro ⟨game, hgame, hseated⟩
  obtain ⟨rules, echo, rfl⟩ := hfresh.exists_eq_new g game hgame
  cases role <;> exact absurd hseated (by simp [Game.new, Game.seated])

theorem IsFresh.isServed (hfresh : t.IsFresh) (g : GameId) : t.IsServed g where
  role?_eq p role hsits := absurd hsits (hfresh.not_sits p g role)
  peopleSitOnlyIn p role _ _ _ hsits := absurd hsits (hfresh.not_sits p g role)
  isInHand game role p _ hgame _ hseated := absurd ⟨game, hgame, hseated⟩ (hfresh.not_sits p g role)

theorem IsServed.attends (hserved : t.IsServed g) (hattends : Attends g t s) : s.IsServed g := by
  induction hattends with
  | start => exact hserved
  | serve _ request hrequest hchoice hsits ih => exact ih.serve hrequest hchoice hsits
  | take _ p decision hpending ih => exact ih.take hpending

theorem IsServed.choose_eq_ok (hserved : t.IsServed g) {game : Game} {player : Player}
    (hgame : t.game? g = some game) (hphase : game.phase = .toMove role)
    (hseated : game.seated role = some p) (hplayer : t.player? p = some player)
    (hheld : player.heldChoices = game.choices role) (hstopped : game.stopped = false)
    {index : Nat} (hindex : index < player.heldChoices.length) :
    (t.choose p index g).1 = .ok () := by
  have hrole := hserved.role?_eq p role ⟨game, hgame, hseated⟩
  rw [role?, hplayer, Option.map_some, Option.some_inj] at hrole
  have hmove := List.getElem_mem hindex
  refine (isAnswered_choose hgame hplayer index).eq_ok_iff.2
    ⟨_, List.getElem?_eq_getElem hindex, ?_⟩
  rw [hrole]
  exact (isAnswered_playBy t.performer hgame role _).eq_ok_iff.2 ⟨hstopped, hphase, hheld ▸ hmove⟩

/-- Whenever a request has been served or a decision has been taken and a game waits for a
person, the person holds the choices of its role at the node of the game, and it holds some. If
the game is not stopped, the person can choose each of them. This takes no more than that people
sit and choose in no other game while they are seated in this one. -/
theorem heldChoices_eq_of_attends (hfresh : t.IsFresh) (hattends : t.Attends g s)
    {game : Game} (hgame : s.game? g = some game) (hphase : game.phase = .toMove role)
    (hseated : game.seated role = some p) {player : Player} (hplayer : s.player? p = some player)
    (hhuman : player.isHuman = true) :
    player.heldChoices = game.rules.choices game.turn.node role ∧ player.heldChoices ≠ [] ∧
      (game.stopped = false → ∀ index < player.heldChoices.length,
        (s.choose p index g).1 = .ok ()) := by
  have hserved := (hfresh.isServed g).attends hattends
  have hhand : s.hand? p = some player.heldChoices :=
    hand?_eq_some_iff.2 ⟨player, hplayer, hhuman, rfl⟩
  obtain ⟨hheld, hsome⟩ := hserved.isInHand game role p _ hgame hphase hseated hhand
  exact ⟨hheld, hsome, fun hstopped _ hindex =>
    hserved.choose_eq_ok hgame hphase hseated hplayer hheld hstopped hindex⟩

def endless : Rules where
  root := .root
  choices _ _ := [⟨.ofIndex 0, .root, ⟨"a"⟩, .left⟩]
  winner := .defender
  attack _ choices := (choices.head?.map .ok).getD (.error (.noChoices .attacker))
  attackNotices _ _ := []
  defence _ choices := (choices.head?.map .ok).getD (.error (.noChoices .defender))
  label p := p.text

/-- A game that does not end, a person and a player that answers once from within its prompt. -/
def rally : Tournament where
  now := 0
  games := #[.held (.new endless false)]
  players := #[.human .attacker .first, .scripted .defender .second [[.play 0]]]
  notices := #[]
  diary := #[]

theorem isFresh_rally : rally.IsFresh :=
  isFresh_of_games_eq [(endless, false)] rfl
    (by simp [rally, Player.human, Player.scripted, Player.pending?])

theorem peopleSitOnlyIn_zero (hsize : t.games.size ≤ 1) : t.PeopleSitOnlyIn 0 := by
  rintro p role h place - - ⟨game, hgame, -⟩
  refine Nat.eq_zero_of_not_pos fun hpos => ?_
  rw [game?, Array.getElem?_eq_none (Nat.le_trans hsize hpos)] at hgame
  exact absurd hgame (by simp)

/-- The person gets the turn back while its first choice is being played, and holds its choices
again. -/
theorem heldChoices_rally :
    ∃ s game player, rally.Attends 0 s ∧ s.game? 0 = some game ∧
      game.phase = .toMove .attacker ∧ game.record.plays.length = 2 ∧
      game.seated .attacker = some 0 ∧ s.player? 0 = some player ∧
      player.heldChoices = game.rules.choices game.turn.node .attacker ∧
      player.heldChoices ≠ [] ∧ (s.choose 0 0 0).1 = .ok () := by
  have hstart : rally.Attends 0 rally := .start
  have hattends := ((hstart.serve (.seat 0 0 1) (fun _ _ _ _ => trivial)
      (fun _ _ _ _ heq => Request.noConfusion heq)
      (peopleSitOnlyIn_zero (by decide +kernel))).serve (.start 0) trivial
      (fun _ _ _ _ heq => Request.noConfusion heq)
      (peopleSitOnlyIn_zero (by decide +kernel))).serve (.choose 0 0 0)
      (fun _ _ _ _ => trivial) (fun _ _ _ _ heq _ _ => (Request.choose.inj heq).2.2.symm)
      (peopleSitOnlyIn_zero (by decide +kernel))
  obtain ⟨hheld, hsome, hchoose⟩ := heldChoices_eq_of_attends isFresh_rally hattends
    (g := 0) rfl rfl rfl rfl rfl
  exact ⟨_, _, _, hattends, rfl, rfl, rfl, rfl, rfl, hheld, hsome,
    hchoose rfl 0 (by decide +kernel)⟩

end Tournament

end BisimPlay
