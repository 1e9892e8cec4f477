import BisimPlay.Proofs.Contest.Verdict
import BisimPlay.Proofs.Tournament.Rehearsal
import BisimPlay.Proofs.Tournament.Upkeep
import BisimPlay.Session

/-!
# One game after another

A session has one live game at most. A game that is superseded, by a new game or because it
is hidden, has been stopped, and from then on it stands as it did: nothing that was pending
for it comes to a move, and nothing that is asked of it, of the clock or of the session
reaches it. A new game that cannot be made leaves the session as if the live game had only
been hidden; nothing has been drawn or forked, so later games do not know the difference.

`IsOrderly` is what serving a request keeps, and `IsOrderly.run` is the same for a run.
-/

namespace BisimPlay

namespace Session

/-- Something that can be asked of a session, of its clock or of one of its games. -/
inductive Request
  /-- Make and start a game of two named processes. -/
  | newGame (left right : String)
  /-- Let go of the live game. -/
  | hide
  /-- Move the clock on. -/
  | advance (duration : Nat)
  /-- Start a game. -/
  | start (game : GameId)
  /-- Make a move for a role. -/
  | play (game : GameId) (role : Role) (move : Move)
  /-- Stop a game. -/
  | stop (game : GameId)
deriving DecidableEq, Inhabited

def serve (session : Session) : Request → Session
  | .newGame left right => (session.newGame left right).2
  | .hide => session.hide
  | .advance duration => session.advance duration
  | .start g => session.withTournament (session.tournament.start g).2
  | .play g role move => session.withTournament (session.tournament.play g role move).2
  | .stop g => session.withTournament (session.tournament.stop g)

def run (session : Session) (requests : List Request) : Session :=
  requests.foldl serve session

/-- The number of the game that a request is answered with. -/
def handle? (session : Session) : Request → Option GameId
  | .newGame left right => (session.newGame left right).1.toOption.map LiveGame.game
  | _ => none

def handles (session : Session) : List Request → List GameId
  | [] => []
  | request :: rest => (session.handle? request).toList ++ (session.serve request).handles rest

@[simp] theorem run_nil (session : Session) : session.run [] = session := rfl

@[simp] theorem run_cons (session : Session) (request : Request) (rest : List Request) :
    session.run (request :: rest) = (session.serve request).run rest := rfl

theorem run_append (session : Session) (requests later : List Request) :
    session.run (requests ++ later) = (session.run requests).run later :=
  List.foldl_append

/-- Nothing disturbs the tournament of a session, and every game but the live one has been
stopped for good. -/
structure IsOrderly (session : Session) : Prop where
  isTended : session.tournament.IsTended
  current_lt : ∀ g, session.current = some g → g < session.tournament.games.size
  exists_isHalted : ∀ g < session.tournament.games.size, session.current ≠ some g →
    ∃ game, session.tournament.IsHalted g game

theorem isOrderly_new (lts : TransitionSystem) (settings : Settings) (otherSeed : UInt64) :
    (new lts settings otherSeed).IsOrderly where
  isTended := Tournament.isTended_empty
  current_lt g hcurrent := absurd hcurrent (by simp [new])
  exists_isHalted g hg := absurd hg (Nat.not_lt_zero g)

variable {session : Session} {g : GameId} {left right : String} {fault : Fault}

@[simp] theorem lts_hide (session : Session) : session.hide.lts = session.lts := by
  unfold hide
  split <;> rfl

@[simp] theorem settings_hide (session : Session) : session.hide.settings = session.settings := by
  unfold hide
  split <;> rfl

/-- The tournament of a session with a game for a contest and the two players of it, who are
not yet seated. -/
def stage (session : Session) (contest : Contest) : Tournament :=
  let t := (session.tournament.addGame (.new contest.rules session.settings.echo)).2
  let t := (t.addPlayer (.automated .defender .first session.settings.thinkingDelay
    session.source.fork.1)).2
  (t.addPlayer (.automated .attacker .second session.settings.thinkingDelay
    session.source.fork.2.fork.1)).2

theorem setUp_eq (session : Session) (contest : Contest) :
    session.setUp contest = (session.tournament.games.size,
      { session with
        source := session.source.fork.2.fork.2
        tournament := ((session.stage contest).seat session.tournament.games.size
          (session.tournament.players.size + 1) session.tournament.players.size).2 }) := by
  simp [setUp, stage, Tournament.addGame, Tournament.addPlayer]

theorem continues_stage (h : session.tournament.IsTended) (contest : Contest) :
    session.tournament.Continues (session.stage contest) := by
  have hgame := h.continues_addGame (.new contest.rules session.settings.echo)
  have hdefender := hgame.isTended.continues_addPlayer
    (.automated .defender .first session.settings.thinkingDelay session.source.fork.1) rfl rfl
  have hattacker := hdefender.isTended.continues_addPlayer
    (.automated .attacker .second session.settings.thinkingDelay session.source.fork.2.fork.1)
    rfl rfl
  exact (hgame.trans hdefender).trans hattacker

theorem size_games_stage (session : Session) (contest : Contest) :
    (session.stage contest).games.size = session.tournament.games.size + 1 :=
  Array.size_push _

theorem isStage_stage (h : session.tournament.IsTended) (contest : Contest) :
    (session.stage contest).IsStage session.tournament.games.size contest.rules
      (session.tournament.players.size + 1) session.tournament.players.size where
  exists_game?_eq := ⟨session.settings.echo, by
    simp [stage, Tournament.addGame, Tournament.addPlayer, Tournament.game?, Slot.game?]⟩
  role?_attacker := by
    simp [stage, Tournament.role?, Tournament.player?_addPlayer, Player.automated]
  role?_defender := by
    simp [stage, Tournament.role?, Tournament.player?_addPlayer, Player.automated]
  lines_eq_nil := (continues_stage h contest).isTended.lines_eq_nil

def announced (session : Session) (left right : String) (contest : Contest) : Session :=
  session.withTournament (session.tournament.tell (session.announcement left right contest))

theorem newGame_of_contest_eq_ok {contest : Contest}
    (h : session.hide.contest left right = .ok contest) :
    session.newGame left right =
      (.ok ⟨session.hide.tournament.games.size, contest⟩,
        { session.hide with
          source := session.hide.source.fork.2.fork.2
          tournament := ((((session.hide.announced left right contest).stage contest).seat
            session.hide.tournament.games.size (session.hide.tournament.players.size + 1)
              session.hide.tournament.players.size).2.start
                session.hide.tournament.games.size).2
          current := some session.hide.tournament.games.size }) := by
  simp only [newGame, h, setUp_eq]
  rfl

/-- A game that cannot be made leaves a session with no live game, and nothing else is done. -/
theorem newGame_of_fst_eq_error (h : (session.newGame left right).1 = .error fault) :
    session.hide.contest left right = .error fault ∧
      (session.newGame left right).2 = session.hide := by
  cases hcontest : session.hide.contest left right with
  | error other =>
      rw [session.current_newGame_of_error _ _ other hcontest] at h ⊢
      exact ⟨congrArg Except.error (Except.error.inj h), rfl⟩
  | ok contest =>
      rw [newGame_of_contest_eq_ok hcontest] at h
      exact absurd h (by simp)

theorem fst_newGame_eq_error_iff :
    (session.newGame left right).1 = .error fault ↔
      (session.lts.process? left = none ∧ fault = .unknownProcess left) ∨
        (session.lts.process? left).isSome = true ∧ session.lts.process? right = none ∧
          fault = .unknownProcess right := by
  have hsame : session.hide.contest left right =
      Contest.ofNames session.lts .strong session.settings.semantics left right := by
    simp [contest]
  have hmade : (session.newGame left right).1 = .error fault ↔
      session.hide.contest left right = .error fault := by
    refine ⟨fun h => (newGame_of_fst_eq_error h).1, fun h => ?_⟩
    rw [session.current_newGame_of_error _ _ fault h]
  rw [hmade, hsame]
  exact Contest.ofNames_eq_error_iff

theorem lts_newGame (session : Session) (left right : String) :
    (session.newGame left right).2.lts = session.lts := by
  cases hcontest : session.hide.contest left right with
  | error fault => rw [session.current_newGame_of_error _ _ fault hcontest, lts_hide]
  | ok contest => simp [newGame_of_contest_eq_ok hcontest]

theorem lts_run (session : Session) (requests : List Request) :
    (session.run requests).lts = session.lts := by
  induction requests generalizing session with
  | nil => rfl
  | cons request rest ih =>
      refine (ih (session.serve request)).trans ?_
      cases request with
      | newGame left right => exact session.lts_newGame left right
      | hide => exact session.lts_hide
      | advance | start | play | stop => rfl

theorem exists_game?_newGame (h : session.hide.tournament.IsTended) {live : LiveGame}
    (hmade : (session.newGame left right).1 = .ok live) :
    (session.newGame left right).2.current = some live.game ∧
      live.game = session.hide.tournament.games.size ∧
      (session.newGame left right).2.tournament.games.size =
        session.hide.tournament.games.size + 1 ∧
      session.hide.tournament.Continues (session.newGame left right).2.tournament ∧
      ∃ copy : Game, copy.rules = live.contest.rules ∧ copy.stopped = false ∧
        (session.newGame left right).2.tournament.game? live.game =
          some (copy.fresh.handOver .attacker).1 := by
  cases hcontest : session.hide.contest left right with
  | error other =>
      rw [session.current_newGame_of_error _ _ other hcontest] at hmade
      exact absurd hmade (by simp)
  | ok contest =>
      have heq := newGame_of_contest_eq_ok hcontest
      rw [heq] at hmade ⊢
      obtain rfl := Except.ok.inj hmade
      have htell : session.hide.tournament.Continues
          (session.hide.announced left right contest).tournament := h.continues_tell _
      have hstage := continues_stage htell.isTended contest
      obtain ⟨_, _, _, hgame⟩ := (isStage_stage htell.isTended contest).exists_started
      have hseat := fun g attacker defender =>
        hstage.isTended.continues_serve (.seat g attacker defender) rfl
      have hstart := fun g attacker defender g' =>
        (hseat g attacker defender).1.isTended.continues_serve (.start g') rfl
      refine ⟨rfl, rfl, ?_, ((htell.trans hstage).trans (hseat _ _ _).1).trans (hstart _ _ _ _).1,
        hgame⟩
      exact ((hstart _ _ _ _).2.trans (hseat _ _ _).2).trans (size_games_stage _ contest)

theorem hide_of_current_eq_none (hcurrent : session.current = none) : session.hide = session := by
  rw [hide, hcurrent]

theorem tournament_hide (hcurrent : session.current = some g) :
    session.hide.tournament = session.tournament.stop g := by
  rw [hide, hcurrent]

namespace IsOrderly

open Tournament (Continues)

theorem withTournament (h : session.IsOrderly) {t : Tournament}
    (hcontinues : session.tournament.Continues t)
    (hsize : t.games.size = session.tournament.games.size) :
    (session.withTournament t).IsOrderly where
  isTended := hcontinues.isTended
  current_lt g hcurrent := hsize.symm ▸ h.current_lt g hcurrent
  exists_isHalted g hg hcurrent := by
    obtain ⟨game, hhalted⟩ := h.exists_isHalted g (hsize ▸ hg) hcurrent
    exact ⟨game, hcontinues.isHalted g game hhalted⟩

theorem exists_game? (h : session.IsOrderly) (hcurrent : session.current = some g) :
    ∃ game, session.tournament.game? g = some game :=
  h.isTended.holdsAll g (h.current_lt g hcurrent)

theorem isHalted_hide (h : session.IsOrderly) (hcurrent : session.current = some g)
    {game : Game} (hgame : session.tournament.game? g = some game) :
    session.hide.tournament.IsHalted g game.frozen := by
  rw [tournament_hide hcurrent]
  exact Tournament.isHalted_stop h.isTended.isOpen hgame

theorem hide (h : session.IsOrderly) :
    session.hide.IsOrderly ∧ session.tournament.Continues session.hide.tournament ∧
      session.hide.tournament.games.size = session.tournament.games.size := by
  cases hcurrent : session.current with
  | none =>
      rw [hide_of_current_eq_none hcurrent]
      exact ⟨h, h.isTended.continues_refl, rfl⟩
  | some live =>
      obtain ⟨game, hgame⟩ := h.exists_game? hcurrent
      have hhalted := h.isHalted_hide hcurrent hgame
      obtain ⟨hcontinues, hsize⟩ := h.isTended.continues_serve (.stop live) rfl
      have hstop : (session.tournament.serve (.stop live)).2 = session.hide.tournament :=
        (tournament_hide hcurrent).symm
      rw [hstop] at hcontinues hsize
      refine ⟨⟨hcontinues.isTended, fun g heq => absurd heq (by simp), fun g hg _ => ?_⟩,
        hcontinues, hsize⟩
      by_cases heq : live = g
      · exact ⟨_, heq ▸ hhalted⟩
      · obtain ⟨found, hfound⟩ := h.exists_isHalted g (hsize ▸ hg) (by simp [hcurrent, heq])
        exact ⟨found, hcontinues.isHalted g found hfound⟩

theorem newGame (h : session.IsOrderly) (left right : String) :
    (session.newGame left right).2.IsOrderly ∧
      session.hide.tournament.Continues (session.newGame left right).2.tournament := by
  obtain ⟨hhide, _, _⟩ := h.hide
  cases hresult : (session.newGame left right).1 with
  | error fault =>
      rw [(newGame_of_fst_eq_error hresult).2]
      exact ⟨hhide, hhide.isTended.continues_refl⟩
  | ok live =>
      obtain ⟨hcurrent, hnumber, hsize, hcontinues, _⟩ :=
        exists_game?_newGame hhide.isTended hresult
      refine ⟨⟨hcontinues.isTended, fun g hlive => ?_, fun g hg hlive => ?_⟩, hcontinues⟩
      · obtain rfl := Option.some.inj (hcurrent.symm.trans hlive)
        rw [hnumber, hsize]
        exact Nat.lt_succ_self _
      · rw [hcurrent, hnumber] at hlive
        rw [hsize] at hg
        have hlt := Nat.lt_of_le_of_ne (Nat.le_of_lt_succ hg) fun heq => hlive (heq ▸ rfl)
        obtain ⟨game, hhalted⟩ := hhide.exists_isHalted g hlt (by simp)
        exact ⟨game, hcontinues.isHalted g game hhalted⟩

theorem serve (h : session.IsOrderly) (request : Request) :
    (session.serve request).IsOrderly ∧
      session.tournament.Continues (session.serve request).tournament := by
  have hpublic (asked : BisimPlay.Request) (hasked : asked.isPublic = true) :
      (session.withTournament (session.tournament.serve asked).2).IsOrderly ∧
        session.tournament.Continues (session.tournament.serve asked).2 := by
    obtain ⟨hcontinues, hsize⟩ := h.isTended.continues_serve asked hasked
    exact ⟨h.withTournament hcontinues hsize, hcontinues⟩
  obtain ⟨hhide, hcontinues, _⟩ := h.hide
  cases request with
  | newGame left right =>
      obtain ⟨hnew, hgoes⟩ := h.newGame left right
      exact ⟨hnew, hcontinues.trans hgoes⟩
  | hide => exact ⟨hhide, hcontinues⟩
  | advance duration => exact hpublic (.advance duration) rfl
  | start g => exact hpublic (.start g) rfl
  | play g role move => exact hpublic (.play g role move) rfl
  | stop g => exact hpublic (.stop g) rfl

theorem run (h : session.IsOrderly) (requests : List Request) :
    (session.run requests).IsOrderly ∧
      session.tournament.Continues (session.run requests).tournament := by
  induction requests generalizing session with
  | nil => exact ⟨h, h.isTended.continues_refl⟩
  | cons request rest ih =>
      obtain ⟨hserved, hcontinues⟩ := h.serve request
      obtain ⟨hrun, hgoes⟩ := ih hserved
      exact ⟨hrun, hcontinues.trans hgoes⟩

/-- A game that is no longer the live one after a request has been stopped for good, as it
stood before the request. -/
theorem isHalted_of_superseded (h : session.IsOrderly) {request : Request}
    (hcurrent : session.current = some g) (hsuperseded : (session.serve request).current ≠ some g)
    {game : Game} (hgame : session.tournament.game? g = some game) :
    (session.serve request).tournament.IsHalted g game.frozen := by
  have hhalted := h.isHalted_hide hcurrent hgame
  cases request with
  | newGame left right => exact (h.newGame left right).2.isHalted g _ hhalted
  | hide => exact hhalted
  | advance | start | play | stop => exact absurd hcurrent hsuperseded

theorem lt_of_mem_handles (h : session.IsOrderly) {requests : List Request}
    (hmem : g ∈ session.handles requests) : g < (session.run requests).tournament.games.size := by
  induction requests generalizing session with
  | nil => exact absurd hmem List.not_mem_nil
  | cons request rest ih =>
      obtain ⟨hserved, _⟩ := h.serve request
      rcases List.mem_append.1 hmem with hanswer | hlater
      · cases request with
        | newGame left right =>
            obtain ⟨live, hlive, rfl⟩ :=
              Option.map_eq_some_iff.1 (Option.mem_toList.1 hanswer)
            cases hresult : (session.newGame left right).1 with
            | error fault => simp [hresult, Except.toOption] at hlive
            | ok made =>
                rw [hresult] at hlive
                obtain rfl := Option.some.inj hlive
                have hlive := exists_game?_newGame h.hide.1.isTended hresult
                have hlt := hserved.current_lt _ hlive.1
                exact Nat.lt_of_lt_of_le hlt (hserved.run rest).2.size_le
        | hide | advance | start | play | stop => exact absurd hanswer List.not_mem_nil
      · exact ih hserved hlater

end IsOrderly

/-- A session has one live game at most. Whatever is asked of a session, of its clock and of
the games that it has answered with, each of these games but the live one has been stopped, no
decision is pending for it, and it stands for good as it did before the request that
superseded it, with its phase, its turn, its record and its seats. A new game that cannot be
made leaves no live game and draws and forks nothing; what comes later is the same as if the
live game had been hidden instead. -/
theorem isHalted_of_run (lts : TransitionSystem) (settings : Settings) (otherSeed : UInt64)
    (requests : List Request) :
    let session := (new lts settings otherSeed).run requests
    (∀ g ∈ (new lts settings otherSeed).handles requests, session.current ≠ some g →
      ∃ game, session.tournament.game? g = some game ∧ game.stopped = true ∧
        ∀ p decision, session.tournament.decision? p = some decision → decision.game ≠ g) ∧
    (∀ before request after g, requests = before ++ request :: after →
      ((new lts settings otherSeed).run before).current = some g →
      ((new lts settings otherSeed).run (before ++ [request])).current ≠ some g →
      ∃ game, ((new lts settings otherSeed).run before).tournament.game? g = some game ∧
        session.tournament.game? g = some game.frozen ∧
        ∀ p decision, session.tournament.decision? p = some decision → decision.game ≠ g) ∧
    ∀ left right fault, (session.newGame left right).1 = .error fault →
      (session.newGame left right).2.current = none ∧
      (session.newGame left right).2.source = session.source ∧
      ∀ later, session.run (.newGame left right :: later) = session.run (.hide :: later) := by
  have horder := fun requests => ((isOrderly_new lts settings otherSeed).run requests).1
  refine ⟨fun g hmem hcurrent => ?_, ?_, fun left right fault hfault => ?_⟩
  · have hlt := (isOrderly_new lts settings otherSeed).lt_of_mem_handles hmem
    obtain ⟨game, hhalted⟩ := (horder requests).exists_isHalted g hlt hcurrent
    exact ⟨game, (horder requests).isTended.game?_of_isHalted hhalted, hhalted.stopped_eq,
      hhalted.game_ne⟩
  · rintro before request after g rfl hcurrent hsuperseded
    rw [run_append] at hsuperseded
    obtain ⟨game, hgame⟩ := (horder before).exists_game? hcurrent
    have hhalted := (horder before).isHalted_of_superseded hcurrent hsuperseded hgame
    obtain ⟨hlast, hcontinues⟩ := ((horder before).serve request).1.run after
    have hstill := hcontinues.isHalted g _ hhalted
    rw [run_append]
    exact ⟨game, hgame, hlast.isTended.game?_of_isHalted hstill, hstill.game_ne⟩
  · obtain ⟨_, hhide⟩ := newGame_of_fst_eq_error hfault
    refine ⟨by rw [hhide, current_hide], by rw [hhide, source_hide], fun later => ?_⟩
    rw [run_cons, run_cons, serve, serve, hhide]

def turns : Session := new Contest.turns .standard 0

theorem exists_newGame_turns :
    ∃ live, (turns.newGame "X" "Y").1 = .ok live ∧ live.game = 0 ∧
      (turns.newGame "X" "Y").2.current = some 0 := by
  have htended := (isOrderly_new Contest.turns .standard 0).hide.1.isTended
  cases hresult : (turns.newGame "X" "Y").1 with
  | ok live =>
      obtain ⟨hcurrent, hnumber, _⟩ := exists_game?_newGame htended hresult
      have hzero : live.game = 0 := hnumber
      exact ⟨live, rfl, hzero, hzero ▸ hcurrent⟩
  | error fault =>
      obtain ⟨hleft, hright, _⟩ := Contest.process?_turns
      rcases fst_newGame_eq_error_iff.1 hresult with ⟨hnone, _⟩ | ⟨_, hnone, _⟩
      · exact absurd (hleft.symm.trans hnone) (by simp)
      · exact absurd (hright.symm.trans hnone) (by simp)

theorem newGame_turns_eq_error (requests : List Request) :
    ((turns.run requests).newGame "X" "W").1 = .error (.unknownProcess "W") := by
  obtain ⟨hleft, _⟩ := Contest.process?_turns
  have hright : Contest.turns.process? "W" = none := by decide +kernel
  rw [fst_newGame_eq_error_iff, lts_run]
  exact .inr ⟨Option.isSome_of_eq_some hleft, hright, rfl⟩

/-- A game that cannot be made supersedes the first one. -/
theorem isHalted_turns :
    let session := turns.run [.newGame "X" "Y", .newGame "X" "W"]
    turns.handles [.newGame "X" "Y", .newGame "X" "W"] = [0] ∧ session.current = none ∧
      (∃ game, session.tournament.game? 0 = some game ∧ game.stopped = true) ∧
      (∃ game, (turns.run [.newGame "X" "Y"]).tournament.game? 0 = some game ∧
        session.tournament.game? 0 = some game.frozen) ∧
      (session.newGame "X" "W").1 = .error (.unknownProcess "W") ∧
      session.run [.newGame "X" "W", .newGame "X" "Y"] =
        session.run [.hide, .newGame "X" "Y"] := by
  obtain ⟨live, hfirst, hzero, hlive⟩ := exists_newGame_turns
  have hsecond : ((turns.newGame "X" "Y").2.newGame "X" "W").1 = .error (.unknownProcess "W") :=
    newGame_turns_eq_error [.newGame "X" "Y"]
  have hhidden : (turns.run [.newGame "X" "Y", .newGame "X" "W"]).current = none := by
    rw [run_cons, run_cons, run_nil, serve, serve, (newGame_of_fst_eq_error hsecond).2,
      current_hide]
  have hhandles : turns.handles [.newGame "X" "Y", .newGame "X" "W"] = [0] := by
    simp [handles, handle?, hfirst, hzero, serve, hsecond, Except.toOption]
  obtain ⟨hstopped, hsuperseded, hfails⟩ := isHalted_of_run Contest.turns .standard 0
    [.newGame "X" "Y", .newGame "X" "W"]
  have hnone : (turns.run [.newGame "X" "Y", .newGame "X" "W"]).current ≠ some 0 := by
    rw [hhidden]
    simp
  obtain ⟨game, hgame, hhalted, _⟩ := hstopped 0 (hhandles ▸ List.mem_singleton_self 0) hnone
  obtain ⟨before, hbefore, hafter, _⟩ := hsuperseded [.newGame "X" "Y"] (.newGame "X" "W") [] 0
    rfl hlive hnone
  have hthird := newGame_turns_eq_error [.newGame "X" "Y", .newGame "X" "W"]
  obtain ⟨_, _, hsame⟩ := hfails _ _ _ hthird
  exact ⟨hhandles, hhidden, ⟨game, hgame, hhalted⟩, ⟨before, hbefore, hafter⟩, hthird, hsame _⟩

end Session

end BisimPlay
