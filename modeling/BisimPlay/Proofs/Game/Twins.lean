import BisimPlay.Proofs.Game.Coherence

/-!
# Twins

A twin of a game has the same rules, the same phase, the same turn and the same entries on
record. Its seats may be filled otherwise, its record may echo or not, and it may have been
stopped or not. A twin that has not been stopped takes every move that the game takes, and
the two are twins again afterwards; so a game that is started anew becomes a twin of any
other with the same rules, move by move.
-/

namespace BisimPlay

namespace Game

variable {game next copy : Game} {role : Role} {move : Move}

/-- A game that stands as another does, as far as play is concerned. -/
structure IsTwin (game copy : Game) : Prop where
  rules_eq : copy.rules = game.rules
  phase_eq : copy.phase = game.phase
  turn_eq : copy.turn = game.turn
  entries_eq : copy.record.entries = game.record.entries

theorem choices_congr (hrules : copy.rules = game.rules) (hturn : copy.turn = game.turn)
    (role : Role) : copy.choices role = game.choices role := by
  rw [choices, choices, hrules, hturn]

theorem isTwin_handOver (hrules : copy.rules = game.rules) (hturn : copy.turn = game.turn)
    (hentries : copy.record.entries = game.record.entries) (role : Role) :
    (game.handOver role).1.IsTwin (copy.handOver role).1 := by
  have hsame := choices_congr hrules hturn role
  obtain ⟨record, phase, heq, hcases⟩ := game.exists_handOver_fst_eq role
  obtain ⟨other, reached, hcopy, hothers⟩ := copy.exists_handOver_fst_eq role
  rw [heq, hcopy]
  rw [hsame] at hothers
  rcases hcases with ⟨hnone, rfl, rfl⟩ | ⟨hsome, rfl, rfl⟩
  · obtain ⟨_, rfl, rfl⟩ := hothers.resolve_right fun h => h.1 hnone
    exact ⟨hrules, rfl, hturn, by rw [Record.entries_add, Record.entries_add, hentries]⟩
  · obtain ⟨_, rfl, rfl⟩ := hothers.resolve_left fun h => hsome h.1
    exact ⟨hrules, rfl, hturn, hentries⟩

theorem isTwin_started (hrules : copy.rules = game.rules) :
    (game.fresh.handOver .attacker).1.IsTwin (copy.fresh.handOver .attacker).1 := by
  have hfresh : copy.fresh.rules = game.fresh.rules := hrules
  have hturn : copy.fresh.turn = game.fresh.turn := by rw [fresh, fresh, hrules]
  exact isTwin_handOver hfresh hturn rfl .attacker

namespace IsTwin

theorem entries_moved_eq (h : game.IsTwin copy) (role : Role) (move : Move) :
    (copy.moved role move).record.entries = (game.moved role move).record.entries := by
  have hwritten : copy.entriesOf role move = game.entriesOf role move := by
    unfold entriesOf
    rw [h.turn_eq, h.rules_eq]
  rw [← Array.toList_inj, entries_moved, entries_moved, h.entries_eq, hwritten]

theorem exists_play_eq_ok (h : game.IsTwin copy) (hstopped : copy.stopped = false)
    (hphase : game.phase = .toMove role) (hmove : move ∈ game.choices role) :
    ∃ follower effects, copy.play role move = .ok (follower, effects) ∧
      ((game.moved role move).handOver role.opponent).1.IsTwin follower ∧
      follower.stopped = false := by
  obtain ⟨heading, haccept⟩ := copy.exists_accept_eq role move
  refine ⟨_, _, play_eq_ok_iff.2 ⟨hstopped, h.phase_eq.trans hphase, ?_, haccept⟩, ?_, ?_⟩
  · rwa [choices_congr h.rules_eq h.turn_eq]
  · have hrules : (copy.moved role move).rules = (game.moved role move).rules := h.rules_eq
    have hturn : (copy.moved role move).turn = (game.moved role move).turn := by
      rw [turn_moved, turn_moved, h.turn_eq]
    exact isTwin_handOver hrules hturn (h.entries_moved_eq role move) role.opponent
  · rw [stopped_handOver]
    exact hstopped

theorem congr (h : game.IsTwin copy) (hrules : next.rules = game.rules)
    (hphase : next.phase = game.phase) (hturn : next.turn = game.turn)
    (hrecord : next.record = game.record) : next.IsTwin copy :=
  ⟨h.rules_eq.trans hrules.symm, h.phase_eq.trans hphase.symm, h.turn_eq.trans hturn.symm,
    by rw [hrecord, h.entries_eq]⟩

end IsTwin

end Game

end BisimPlay
