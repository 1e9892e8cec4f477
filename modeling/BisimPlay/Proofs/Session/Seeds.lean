import BisimPlay.Proofs.Random.Forks
import BisimPlay.Proofs.Session.Succession
import BisimPlay.Proofs.Tournament.Hands

/-!
# The seeds of the players of a session

All players of a session take their sources from the session's own, in the order in which games
are made, and in each game the defender before the attacker. A game that cannot be made takes
none. So the seeds of the players follow that of the session one stride after the other, whoever
is told to move, draws or is dismissed in the meantime, and no two of them agree before the
strides come round.

`IsSown` is the invariant: it says how far the session has got in this sequence. A request
either leaves it there or makes the next game (`IsSown.serve_cases`).
-/

namespace BisimPlay

theorem Rules.seed_verdict (rules : Rules) (node : NodeId) (role : Role) (choices : List Move)
    (source : RandomSource) :
    (rules.verdict node role choices source).source.seed = source.seed := by
  have hchoose : (source.choose choices).2.seed = source.seed := by
    by_cases hnone : choices.length = 0 <;> simp [RandomSource.choose, RandomSource.index, hnone]
  unfold verdict
  split
  · cases role <;> rfl
  · split <;> next heq => rwa [heq] at hchoose

namespace Tournament

variable {permit : Permit} {t s : Tournament} {g : GameId} {p : PlayerId} {game next : Game}

def seed? (t : Tournament) (p : PlayerId) : Option UInt64 :=
  (t.source? p).map RandomSource.seed

def playerSeeds (t : Tournament) : List UInt64 :=
  (List.range t.players.size).filterMap t.seed?

theorem seed?_addPlayer (t : Tournament) (player : Player) (p : PlayerId) :
    (t.addPlayer player).2.seed? p =
      if p = t.players.size then player.source?.map RandomSource.seed else t.seed? p := by
  rw [seed?, source?, player?_addPlayer]
  split <;> rfl

theorem Step.seed?_eq (h : Step permit t s) (p : PlayerId) : s.seed? p = t.seed? p := by
  cases h with
  | tell notice => rfl
  | note q event => rfl
  | wait time => rfl
  | release g => rfl
  | letGo q g hgame => rw [seed?, t.source?_holding, seed?]
  | call g call hpermit hgame hcall => rw [seed?, source?_heedAll, source?_setGame, seed?]
  | choose q g move hplayer hmove hpermit hgame hcall =>
      rw [seed?, source?_heedAll, source?_setGame, t.source?_holding, seed?]
  | @decide q decision player game next effects delay source verdict hplayer hconduct hgame
      hverdict hcall =>
      rw [seed?, source?_heedAll, source?_setGame, source?_heard, seed?]
      split
      · next heq =>
          have hsource : t.source? p = some source := by
            rw [← heq, source?, hplayer, Option.bind_some, Player.source?, hconduct]
          rw [hsource, Option.map_some, Option.map_some, hverdict, Rules.seed_verdict,
            Option.map_some]
      · rfl
  | lapse q decision hpending hgame =>
      exact congrArg (Option.map RandomSource.seed)
        (source?_withoutDecision { t with now := decision.due } q p)

theorem Leads.seed?_eq (h : Leads permit t s) (p : PlayerId) : s.seed? p = t.seed? p := by
  induction h with
  | refl => rfl
  | tail _ hstep ih => exact (hstep.seed?_eq p).trans ih

theorem exists_game?_of_setGame_heedAll {h : GameId} {call : Call} {after : Game}
    {effects : List Effect} (hgame : t.game? h = some game)
    (hcall : call.on game = .ok (after, effects))
    (hseat : ∀ attacker defender, call ≠ .seat attacker defender)
    (hnext : ((t.setGame h after).heedAll h effects).game? g = some next) :
    ∃ before, t.game? g = some before ∧ ∀ role, next.seated role = before.seated role := by
  rw [game?_heedAll, game?_setGame_of_eq_some hgame] at hnext
  split at hnext
  · next heq =>
      obtain rfl := Option.some.inj hnext
      exact ⟨game, heq ▸ hgame, Game.seated_of_on_eq_ok hcall hseat⟩
  · exact ⟨next, hnext, fun _ => rfl⟩

theorem Step.exists_game?_seated_eq (h : Step withoutSeating t s) (hnext : s.game? g = some next) :
    ∃ before, t.game? g = some before ∧ ∀ role, next.seated role = before.seated role := by
  have hsame (hnext : t.game? g = some next) :
      ∃ before, t.game? g = some before ∧ ∀ role, next.seated role = before.seated role :=
    ⟨next, hnext, fun _ => rfl⟩
  cases h with
  | tell notice => exact hsame hnext
  | note q event => exact hsame hnext
  | wait time => exact hsame hnext
  | release k => exact hsame (game?_of_release_eq_some hnext)
  | letGo q k hgame => exact hsame hnext
  | call k call hpermit hgame hcall =>
      exact exists_game?_of_setGame_heedAll hgame hcall hpermit hnext
  | choose q k move hplayer hmove hpermit hgame hcall =>
      exact exists_game?_of_setGame_heedAll (t := t.modifyPlayer q _) hgame hcall hpermit hnext
  | decide q decision hplayer hconduct hgame hverdict hcall =>
      rw [← game?_heard t q decision _ _ decision.game] at hgame
      obtain ⟨before, hbefore, hseats⟩ := exists_game?_of_setGame_heedAll hgame hcall
        (Game.answer_ne_seat _ _ _) hnext
      exact ⟨before, (game?_heard t q decision _ _ g).symm.trans hbefore, hseats⟩
  | lapse q decision hpending hgame => exact hsame hnext

theorem Leads.exists_game?_seated_eq (h : Leads withoutSeating t s)
    (hnext : s.game? g = some next) :
    ∃ before, t.game? g = some before ∧ ∀ role, next.seated role = before.seated role := by
  induction h generalizing next with
  | refl => exact ⟨next, hnext, fun _ => rfl⟩
  | tail _ hstep ih =>
      obtain ⟨middle, hmiddle, hlast⟩ := hstep.exists_game?_seated_eq hnext
      obtain ⟨before, hbefore, hfirst⟩ := ih hmiddle
      exact ⟨before, hbefore, fun role => (hlast role).trans (hfirst role)⟩

end Tournament

namespace Tournament

open RandomSource (strideFrom)

/-- The players of a game where each game has two of its own, those of the first game first. -/
def playerOf (g : GameId) : Role → PlayerId
  | .defender => 2 * g
  | .attacker => 2 * g + 1

theorem playerOf_lt {g made : Nat} (h : g < made) (role : Role) : playerOf g role < 2 * made := by
  cases role with
  | attacker =>
      change 2 * g + 1 < 2 * made
      omega
  | defender => exact Nat.mul_lt_mul_of_pos_left h Nat.two_pos

/-- A number of games has been made, each with two players of its own whose seeds are the next
ones after a first seed. -/
structure IsSown (seed : UInt64) (made : Nat) (t : Tournament) : Prop where
  size_games : t.games.size = made
  size_players : t.players.size = 2 * made
  seed?_eq : ∀ p < 2 * made, t.seed? p = some (strideFrom seed (p + 1))
  seated_eq : ∀ g game, t.game? g = some game →
    ∀ role, game.seated role = some (playerOf g role)

namespace IsSown

variable {seed : UInt64} {made : Nat} {t s : Tournament}

theorem leads (h : t.IsSown seed made) (hleads : Leads withoutSeating t s) :
    s.IsSown seed made where
  size_games := hleads.size_games_eq.trans h.size_games
  size_players := hleads.size_players_eq.trans h.size_players
  seed?_eq p hp := (hleads.seed?_eq p).trans (h.seed?_eq p hp)
  seated_eq g next hnext role := by
    obtain ⟨before, hbefore, hseats⟩ := hleads.exists_game?_seated_eq hnext
    exact (hseats role).trans (h.seated_eq g before hbefore role)

theorem seeds_eq (h : t.IsSown seed made) :
    t.playerSeeds = (List.range (2 * made)).map fun p => strideFrom seed (p + 1) := by
  rw [playerSeeds, h.size_players, ← List.filterMap_eq_map]
  exact List.filterMap_congr fun p hp => h.seed?_eq p (List.mem_range.1 hp)

theorem nodup_seeds (h : t.IsSown seed made) (hmade : made < 0x8000000000000000) :
    (seed :: t.playerSeeds).Nodup := by
  have hseeds : seed :: t.playerSeeds = (List.range (2 * made + 1)).map (strideFrom seed) := by
    rw [h.seeds_eq, List.range_succ_eq_map, List.map_cons, List.map_map,
      RandomSource.strideFrom_zero]
    rfl
  rw [hseeds]
  refine List.Nodup.map_on (fun m hm n hn heq => ?_) List.nodup_range
  rw [List.mem_range] at hm hn
  exact (RandomSource.strideFrom_inj seed (by omega) (by omega)).1 heq

end IsSown

end Tournament

namespace Session

open RandomSource (Descent strideFrom)
open Tournament (Leads withoutSeating)

/-- A session has made a number of games, and its source has been forked twice for each. -/
structure IsSown (seed : UInt64) (made : Nat) (session : Session) : Prop where
  source_eq : session.source = (⟨[], 2 * made⟩ : Descent).source seed
  isSown : session.tournament.IsSown seed made

theorem isSown_new (lts : TransitionSystem) (settings : Settings) (otherSeed : UInt64) :
    (new lts settings otherSeed).IsSown (settings.seed.getD otherSeed) 0 where
  source_eq := by simp [new, Descent.source, RandomSource.ofSeed]
  isSown :=
    { size_games := rfl
      size_players := rfl
      seed?_eq := fun p hp => absurd hp (Nat.not_lt_zero p)
      seated_eq := fun g game hgame => absurd hgame (by simp [new, Tournament.empty,
        Tournament.game?]) }

namespace IsSown

variable {session : Session} {seed : UInt64} {made : Nat} {left right : String}

theorem withTournament (h : session.IsSown seed made) {t : Tournament}
    (hleads : Leads withoutSeating session.tournament t) :
    (session.withTournament t).IsSown seed made where
  source_eq := h.source_eq
  isSown := h.isSown.leads hleads

theorem hide (h : session.IsSown seed made) : session.hide.IsSown seed made := by
  unfold Session.hide
  split
  · exact h
  · next g hcurrent =>
      have hleads : Leads withoutSeating session.tournament
          (session.tournament.serve (.stop g)).2 :=
        Tournament.leads_serve (Tournament.scriptsWithin_withoutSeating _)
          fun _ _ => Call.noConfusion
      exact ⟨h.source_eq, h.isSown.leads hleads⟩

theorem seed?_stage (h : session.IsSown seed made) (contest : Contest) {p : PlayerId}
    (hp : p < 2 * (made + 1)) :
    (session.stage contest).seed? p = some (strideFrom seed (p + 1)) := by
  have hsize := h.isSown.size_players
  have hdefence : session.source.fork.1.seed = strideFrom seed (2 * made + 1) := by
    rw [h.source_eq, Descent.fork_source]
    simp [Descent.heir]
  have hattack : session.source.fork.2.fork.1.seed = strideFrom seed (2 * made + 2) := by
    rw [h.source_eq, Descent.fork_source, Descent.fork_source]
    simp [Descent.heir, Descent.forked]
  rw [stage, Tournament.seed?_addPlayer, Tournament.seed?_addPlayer,
    Tournament.size_players_addPlayer, Tournament.players_addGame, hsize]
  split
  · next heq => exact congrArg some (hattack.trans (by rw [heq]))
  · next hlast =>
      split
      · next heq => exact congrArg some (hdefence.trans (by rw [heq]))
      · next hnext =>
          have hle := Nat.le_of_lt_succ (Nat.lt_of_le_of_ne (Nat.le_of_lt_succ hp) hlast)
          exact h.isSown.seed?_eq p (Nat.lt_of_le_of_ne hle hnext)

theorem seated_stage (h : session.IsSown seed made) (contest : Contest) {g : GameId} {game : Game}
    (hgame : (session.stage contest).game? g = some game) (hne : session.tournament.games.size ≠ g)
    (role : Role) : game.seated role = some (Tournament.playerOf g role) := by
  have hlt : g < session.tournament.games.size + 1 := by
    rw [← size_games_stage session contest]
    exact Tournament.lt_size_of_game?_eq_some hgame
  have hold : session.tournament.game? g = some game := by
    rw [← hgame]
    exact congrArg (Option.bind · Slot.game?) (Tournament.games_addGame_of_lt _
      (Nat.lt_of_le_of_ne (Nat.le_of_lt_succ hlt) hne.symm)).symm
  exact h.isSown.seated_eq g game hold role

theorem setUp (h : session.IsSown seed made) (htended : session.tournament.IsTended)
    (contest : Contest) : (session.setUp contest).2.IsSown seed (made + 1) := by
  obtain ⟨echo, hnew, hseat⟩ := (isStage_stage htended contest).exists_seat_eq
  rw [setUp_eq, hseat]
  refine ⟨?_, ⟨?_, ?_, fun p hp => h.seed?_stage contest hp, fun g game hgame role => ?_⟩⟩
  · rw [h.source_eq, Descent.fork_source, Descent.fork_source]
    rfl
  · rw [Tournament.setGame, Array.size_setIfInBounds, size_games_stage, h.isSown.size_games]
  · have hsize := h.isSown.size_players
    simp only [Tournament.setGame, stage, Tournament.size_players_addPlayer,
      Tournament.players_addGame]
    omega
  · rw [Tournament.game?_setGame_of_eq_some hnew] at hgame
    split at hgame
    · next heq =>
        obtain rfl := Option.some.inj hgame
        rw [← heq, h.isSown.size_games, h.isSown.size_players]
        cases role <;> rfl
    · next hne => exact h.seated_stage contest hgame hne role

theorem serve_cases (h : session.IsSown seed made) (horder : session.IsOrderly)
    (request : Request) :
    (session.handle? request = none ∧ (session.serve request).IsSown seed made) ∨
      (session.handle? request = some made ∧ (session.serve request).IsSown seed (made + 1)) := by
  have hserve (asked : BisimPlay.Request)
      (hadmits : session.tournament.Admits withoutSeating asked) :
      (session.withTournament (session.tournament.serve asked).2).IsSown seed made :=
    h.withTournament
      (Tournament.leads_serve (Tournament.scriptsWithin_withoutSeating _) hadmits)
  cases request with
  | newGame left right =>
      cases hcontest : session.hide.contest left right with
      | error fault =>
          have hnone := session.current_newGame_of_error left right fault hcontest
          refine .inl ⟨by simp [handle?, hnone, Except.toOption], ?_⟩
          rw [Session.serve, hnone]
          exact h.hide
      | ok contest =>
          have hmade := newGame_of_contest_eq_ok hcontest
          refine .inr ⟨?_, ?_⟩
          · simp [handle?, hmade, Except.toOption, h.hide.isSown.size_games]
          · have hannounced : (session.hide.announced left right contest).IsSown seed made :=
              h.hide.withTournament (.single (.tell _))
            have htended := (horder.hide.1.isTended.continues_tell
              (session.hide.announcement left right contest)).isTended
            have hset := hannounced.setUp htended contest
            rw [setUp_eq] at hset
            have hstart (t : Tournament) (g : GameId) :
                Leads withoutSeating t (t.serve (.start g)).2 :=
              Tournament.leads_serve t.scriptsWithin_withoutSeating fun _ _ => Call.noConfusion
            rw [Session.serve, hmade]
            exact ⟨hset.source_eq, hset.isSown.leads (hstart _ _)⟩
  | hide => exact .inl ⟨rfl, h.hide⟩
  | advance duration => exact .inl ⟨rfl, hserve (.advance duration) trivial⟩
  | start g => exact .inl ⟨rfl, hserve (.start g) fun _ _ => Call.noConfusion⟩
  | play g role move => exact .inl ⟨rfl, hserve (.play g role move) fun _ _ => Call.noConfusion⟩
  | stop g => exact .inl ⟨rfl, hserve (.stop g) fun _ _ => Call.noConfusion⟩

theorem run (h : session.IsSown seed made) (horder : session.IsOrderly)
    (requests : List Request) :
    session.handles requests = List.range' made (session.handles requests).length ∧
      (session.run requests).IsSown seed (made + (session.handles requests).length) := by
  induction requests generalizing session made with
  | nil => exact ⟨rfl, h⟩
  | cons request rest ih =>
      have hserved := (horder.serve request).1
      rw [handles, run_cons]
      rcases h.serve_cases horder request with ⟨hnone, hkept⟩ | ⟨hsome, hgrown⟩
      · rw [hnone, Option.toList_none, List.nil_append]
        exact ih hkept hserved
      · obtain ⟨hhandles, hsown⟩ := ih hgrown hserved
        rw [hsome, Option.toList_some, List.singleton_append, List.length_cons]
        refine ⟨by rw [List.range'_succ, ← hhandles], ?_⟩
        rwa [Nat.add_comm _ 1, ← Nat.add_assoc]

end IsSown

/-- The seeds of the players of a session. The games that have been made are numbered in order,
and there are two players for each and no others. All players are automated. The seeds of a game
depend on the seed of the session and on the number of the game only. No two players have the
same seed and none has that of the session, provided that fewer than `2 ^ 63` games have been
made. Games that could not be made have made no difference. -/
theorem nodup_seeds_of_run (lts : TransitionSystem) (settings : Settings) (otherSeed : UInt64)
    (requests : List Request) :
    let seed := settings.seed.getD otherSeed
    let made := (new lts settings otherSeed).handles requests
    let session := (new lts settings otherSeed).run requests
    session.source.seed = seed ∧ made = List.range made.length ∧
    session.tournament.players.size = 2 * made.length ∧
    session.tournament.playerSeeds = (List.range (2 * made.length)).map
      (fun p => strideFrom seed (p + 1)) ∧
    (∀ g ∈ made, ∃ game, session.tournament.game? g = some game ∧
      ∀ role, game.seated role = some (Tournament.playerOf g role) ∧
        session.tournament.seed? (Tournament.playerOf g role) =
          some (strideFrom seed (Tournament.playerOf g role + 1))) ∧
    (made.length < 0x8000000000000000 → (seed :: session.tournament.playerSeeds).Nodup) := by
  intro seed made session
  have horder := isOrderly_new lts settings otherSeed
  obtain ⟨hmade, hsource, hsown⟩ := (isSown_new lts settings otherSeed).run horder requests
  rw [Nat.zero_add] at hsource hsown
  rw [← List.range_eq_range'] at hmade
  refine ⟨?_, hmade, hsown.size_players, hsown.seeds_eq, fun g hg => ?_, hsown.nodup_seeds⟩
  · rw [hsource]
    simp [Descent.source, seed]
  · have hlt : g < made.length := List.mem_range.1 (hmade ▸ hg)
    obtain ⟨game, hgame⟩ := (horder.run requests).1.isTended.holdsAll g
      (hsown.size_games.symm ▸ hlt)
    exact ⟨game, hgame, fun role => ⟨hsown.seated_eq g game hgame role,
      hsown.seed?_eq _ (Tournament.playerOf_lt hlt role)⟩⟩

theorem isSome_handle?_turns (requests : List Request) :
    ((turns.run requests).handle? (.newGame "X" "Y")).isSome = true := by
  obtain ⟨hleft, hright, _⟩ := Contest.process?_turns
  cases hresult : ((turns.run requests).newGame "X" "Y").1 with
  | ok live => simp [handle?, hresult, Except.toOption]
  | error fault =>
      rw [fst_newGame_eq_error_iff, lts_run] at hresult
      rcases hresult with ⟨hnone, _⟩ | ⟨_, hnone, _⟩
      · exact absurd (hleft.symm.trans hnone) (by simp)
      · exact absurd (hright.symm.trans hnone) (by simp)

theorem length_handles_turns :
    (turns.handles [.newGame "X" "Y", .newGame "X" "W", .hide, .newGame "X" "Y"]).length = 2 := by
  obtain ⟨first, hfirst⟩ := Option.isSome_iff_exists.1 (isSome_handle?_turns [])
  obtain ⟨last, hlast⟩ := Option.isSome_iff_exists.1
    (isSome_handle?_turns [.newGame "X" "Y", .newGame "X" "W", .hide])
  have hfails := newGame_turns_eq_error [.newGame "X" "Y"]
  simp only [run_cons, run_nil] at hfirst hlast hfails
  have hnone : (turns.serve (.newGame "X" "Y")).handle? (.newGame "X" "W") = none := by
    simp [handle?, hfails, Except.toOption]
  simp only [handles, hfirst, hnone, hlast]
  rfl

/-- The four players of these two games have the first four seeds after that of the session. -/
theorem nodup_seeds_turns :
    let session := turns.run [.newGame "X" "Y", .newGame "X" "W", .hide, .newGame "X" "Y"]
    session.tournament.playerSeeds =
        [strideFrom 0 1, strideFrom 0 2, strideFrom 0 3, strideFrom 0 4] ∧
      (0 :: session.tournament.playerSeeds).Nodup := by
  obtain ⟨_, _, _, hseeds, _, hnodup⟩ := nodup_seeds_of_run Contest.turns .standard 0
    [.newGame "X" "Y", .newGame "X" "W", .hide, .newGame "X" "Y"]
  have hlength := length_handles_turns
  rw [turns] at hlength
  rw [hlength] at hseeds hnodup
  exact ⟨hseeds, hnodup (by decide)⟩

end Session

end BisimPlay
