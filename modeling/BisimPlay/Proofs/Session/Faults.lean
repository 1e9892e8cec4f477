import BisimPlay.Proofs.Session.Succession

/-!
# New games that cannot be made

A session makes no game of a name that has no process. The fault is one of those that lie in
the call. All the same the call is not without effect: the live game has been let go of before
the names are looked up, so a game that was under way is stopped, the decisions of its players
are dropped, and the session has no live game any more. Where there was no live game the call
changes nothing.
-/

namespace BisimPlay

namespace Session

variable {session : Session} {left right : String} {fault : Fault}

theorem isMisuse_of_newGame_eq_error (h : (session.newGame left right).1 = .error fault) :
    fault.isMisuse = true := by
  rcases fst_newGame_eq_error_iff.1 h with ⟨_, rfl⟩ | ⟨_, _, rfl⟩
  · rfl
  · rfl

/-- What a session comes to when a game cannot be made. The live game is stopped if it was not
before, and goes on no more; other games and the decisions of all who are not seated in it stay
as they are, and nothing is drawn or forked. Without a live game, nothing changes. -/
theorem hides_of_newGame_eq_error (h : (session.newGame left right).1 = .error fault) :
    ((session.lts.process? left = none ∧ fault = .unknownProcess left) ∨
      (session.lts.process? left).isSome = true ∧ session.lts.process? right = none ∧
        fault = .unknownProcess right) ∧
    fault.isMisuse = true ∧
    (session.newGame left right).2.current = none ∧
    (session.newGame left right).2.source = session.source ∧
    (session.current = none → (session.newGame left right).2 = session) ∧
    ∀ g game, session.current = some g → session.tournament.game? g = some game →
      (session.newGame left right).2.tournament.game? g = some game.frozen ∧
      (∀ other, other ≠ g → (session.newGame left right).2.tournament.game? other =
        session.tournament.game? other) ∧
      (∀ p, (session.newGame left right).2.tournament.decision? p =
        if game.stopped = false ∧ game.phase.isOver = false ∧ p ∈ game.players then none
        else session.tournament.decision? p) ∧
      (game.stopped = true → (session.newGame left right).2.tournament = session.tournament) := by
  obtain ⟨_, hhide⟩ := newGame_of_fst_eq_error h
  rw [hhide]
  refine ⟨fst_newGame_eq_error_iff.1 h, isMisuse_of_newGame_eq_error h, session.current_hide,
    session.source_hide, hide_of_current_eq_none, fun g game hcurrent hgame => ?_⟩
  rw [tournament_hide hcurrent]
  refine ⟨?_, fun other hother => ?_, Tournament.decision?_stop hgame,
    Tournament.stop_of_stopped hgame⟩
  · rw [Tournament.stop_eq hgame, Tournament.game?_heedAll,
      Tournament.game?_setGame_of_eq_some hgame, if_pos rfl]
  · rw [Tournament.stop_eq hgame, Tournament.game?_heedAll,
      Tournament.game?_setGame_of_eq_some hgame, if_neg (Ne.symm hother)]

theorem exists_game?_turns :
    ∃ game, (turns.run [.newGame "X" "Y"]).tournament.game? 0 = some game ∧
      game.stopped = false := by
  obtain ⟨live, hfirst, hzero, _⟩ := exists_newGame_turns
  have htended := (isOrderly_new Contest.turns .standard 0).hide.1.isTended
  obtain ⟨_, _, _, _, copy, _, hstopped, hgame⟩ := exists_game?_newGame htended hfirst
  exact ⟨_, hzero ▸ hgame, (copy.fresh.stopped_handOver .attacker).trans hstopped⟩

/-- A game that is under way is stopped by asking for one that cannot be made. -/
theorem hides_turns :
    ∃ game, (turns.run [.newGame "X" "Y"]).tournament.game? 0 = some game ∧
      game.stopped = false ∧
      ((turns.run [.newGame "X" "Y"]).newGame "X" "W").1 = .error (.unknownProcess "W") ∧
      ((turns.run [.newGame "X" "Y"]).newGame "X" "W").2.current = none ∧
      ((turns.run [.newGame "X" "Y"]).newGame "X" "W").2.tournament.game? 0 =
        some game.frozen := by
  obtain ⟨_, _, _, hlive⟩ := exists_newGame_turns
  obtain ⟨game, hgame, hrunning⟩ := exists_game?_turns
  have hfault := newGame_turns_eq_error [.newGame "X" "Y"]
  obtain ⟨_, _, hnone, _, _, hafter⟩ := hides_of_newGame_eq_error hfault
  exact ⟨game, hgame, hrunning, hfault, hnone, (hafter 0 game hlive hgame).1⟩

/-- It is not so that a fault that lies in the call leaves the live game of a session as it
is. -/
theorem not_forall_newGame_keeps :
    ¬ ∀ (lts : TransitionSystem) (settings : Settings) (otherSeed : UInt64)
        (requests : List Request) (left right : String) (fault : Fault),
        let session := (new lts settings otherSeed).run requests
        (session.newGame left right).1 = .error fault → fault.isMisuse = true →
          ∀ g game, session.current = some g → session.tournament.game? g = some game →
            (session.newGame left right).2.current = some g ∧
            (session.newGame left right).2.tournament.game? g = some game ∧
            ∀ p, (session.newGame left right).2.tournament.decision? p =
              session.tournament.decision? p := by
  intro hall
  obtain ⟨_, _, _, hlive⟩ := exists_newGame_turns
  obtain ⟨game, hgame, _⟩ := exists_game?_turns
  have hfault := newGame_turns_eq_error [.newGame "X" "Y"]
  obtain ⟨hkept, _⟩ := hall Contest.turns .standard 0 [.newGame "X" "Y"] "X" "W" _ hfault rfl 0
    game hlive hgame
  have hnone := congrArg Session.current (newGame_of_fst_eq_error hfault).2
  rw [current_hide] at hnone
  exact absurd (hnone.symm.trans hkept) (by simp)

end Session

end BisimPlay
