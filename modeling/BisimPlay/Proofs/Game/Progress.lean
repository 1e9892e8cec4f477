import BisimPlay.Proofs.Game.Coherence
import BisimPlay.Proofs.Game.Decisions

/-!
# Games that go on by decisions

A game that is left to automated players goes on by decisions alone: the player of the role
that holds the turn decides, and its move is made if it is a choice; otherwise the game is
broken off. With every decision there is one more move or the game is over.

A game that is given up when its round exceeds a limit has at most two moves for each round
within the limit, and exactly so many when the limit is exceeded.
-/

namespace BisimPlay

namespace Turn

theorem toNat_round (turn : Turn) : turn.round.toNat = turn.step.toNat / 2 + 1 := by
  have hstep := turn.step.toNat_lt
  rw [round, UInt32.toNat_add, UInt32.toNat_div, show UInt32.toNat 2 = 2 from rfl,
    show UInt32.toNat 1 = 1 from rfl]
  omega

end Turn

namespace Game

variable {game next : Game} {role : Role} {move : Move} {maxRounds : Nat}

def Decides (game next : Game) : Prop :=
  ∃ role source effects, game.phase = .toMove role ∧
    (game.answer role (game.rules.verdict game.turn.node role (game.choices role)
      source).move).on game = .ok (next, effects)

theorem Decides.move_or_abort (h : game.Decides next) (hstopped : game.stopped = false) :
    ∃ role source, game.phase = .toMove role ∧
      ((∃ move ∈ game.choices role,
          (game.rules.verdict game.turn.node role (game.choices role) source).move =
            .ok move ∧
          next = ((game.moved role move).handOver role.opponent).1) ∨
        (∃ fault, next = (game.abort fault).1) ∧
          ¬ ∃ move ∈ game.choices role,
            (game.rules.verdict game.turn.node role (game.choices role) source).move =
              .ok move) := by
  obtain ⟨role, source, effects, hphase, hcall⟩ := h
  refine ⟨role, source, hphase, ?_⟩
  by_cases hmove : ∃ move ∈ game.choices role,
      (game.rules.verdict game.turn.node role (game.choices role) source).move = .ok move
  · obtain ⟨move, hmem, hverdict⟩ := hmove
    obtain ⟨heading, haccept⟩ := game.exists_accept_eq role move
    have hplay := play_eq_ok_iff.2 ⟨hstopped, hphase, hmem, haccept⟩
    rw [hverdict, answer_of_play_eq_ok hplay] at hcall
    exact .inl ⟨move, hmem, hverdict, (Prod.mk.inj (Except.ok.inj (hcall.symm.trans hplay))).1⟩
  · refine .inr ⟨?_, hmove⟩
    obtain ⟨_, _, _, ⟨fault, hanswer⟩ | ⟨move, hverdict, hanswer⟩⟩ :=
      game.exists_on_answer_eq_ok role
        (game.rules.verdict game.turn.node role (game.choices role) source).move
    · rw [hanswer] at hcall
      exact ⟨fault, (Prod.mk.inj (Except.ok.inj hcall)).1.symm⟩
    · rw [hanswer] at hcall
      obtain ⟨_, _, hmem, _⟩ := play_eq_ok_iff.1 hcall
      exact absurd ⟨move, hmem, hverdict⟩ hmove

/-- A game that has been started and not been stopped, within a limit of rounds. -/
structure IsUnderWay (maxRounds : Nat) (game : Game) : Prop where
  isCoherent : game.IsCoherent
  stopped_eq : game.stopped = false
  ne_unstarted : game.phase ≠ .unstarted
  length_le : game.record.plays.length ≤ 2 * maxRounds

theorem isUnderWay_handOver (hstopped : game.stopped = false)
    (hcoherent : (game.handOver role).1.IsCoherent)
    (hlength : game.record.plays.length ≤ 2 * maxRounds) :
    (game.handOver role).1.IsUnderWay maxRounds := by
  have hplays := game.plays_handOver role
  obtain ⟨record, phase, heq, hphase⟩ := game.exists_handOver_fst_eq role
  rw [heq] at hcoherent hplays ⊢
  refine ⟨hcoherent, hstopped, ?_, hplays ▸ hlength⟩
  rcases hphase with ⟨_, _, rfl⟩ | ⟨_, _, rfl⟩
  · simp
  · simp

namespace IsUnderWay

theorem toNat_step (h : game.IsUnderWay maxRounds) :
    game.turn.step.toNat = game.record.plays.length := h.isCoherent.isRecorded.step_eq

theorem lt_toNat_round_iff (h : game.IsUnderWay maxRounds) :
    maxRounds < game.turn.round.toNat ↔ game.record.plays.length = 2 * maxRounds := by
  have hlength := h.length_le
  rw [Turn.toNat_round, h.toNat_step]
  omega

theorem exists_phase_eq (h : game.IsUnderWay maxRounds) (hopen : game.phase.isOver = false) :
    ∃ role, game.phase = .toMove role :=
  (game.phase.eq_unstarted_or_exists_eq_toMove hopen).resolve_left h.ne_unstarted

/-- A decision that is taken within the limit leaves the game under way, and it is over or
has one more move. -/
theorem decides (h : game.IsUnderWay maxRounds) (hlimit : maxRounds < 0x80000000)
    (hround : game.turn.round.toNat ≤ maxRounds) (hdecides : game.Decides next) :
    next.IsUnderWay maxRounds ∧ next.rules = game.rules ∧
      (next.phase.isOver = true ∨
        next.record.plays.length = game.record.plays.length + 1) := by
  rw [Turn.toNat_round, h.toNat_step] at hround
  obtain ⟨role, source, hphase, hnext⟩ := hdecides.move_or_abort h.stopped_eq
  have hcoherent (hlength : next.record.plays.length ≤ 2 * maxRounds) : next.IsCoherent := by
    obtain ⟨_, _, effects, _, hcall⟩ := hdecides
    refine IsCoherent.on (fun _ => h.isCoherent) hcall (by omega) fun fault _ => ?_
    rw [hphase]
    rfl
  rcases hnext with ⟨move, _, _, rfl⟩ | ⟨⟨fault, rfl⟩, _⟩
  · have hplays := (game.moved role move).plays_handOver role.opponent
    have hlength : (game.moved role move).record.plays.length =
        game.record.plays.length + 1 := by
      rw [plays_moved, List.length_append, List.length_singleton]
    have hle : (game.moved role move).record.plays.length ≤ 2 * maxRounds := by omega
    rw [hplays] at hcoherent
    refine ⟨isUnderWay_handOver h.stopped_eq (hcoherent hle) hle, ?_, .inr ?_⟩
    · obtain ⟨record, phase, heq, _⟩ := (game.moved role move).exists_handOver_fst_eq role.opponent
      rw [heq]
      rfl
    · rw [hplays, hlength]
  · exact ⟨⟨hcoherent h.length_le, h.stopped_eq, by simp [abort], h.length_le⟩, rfl, .inl rfl⟩

end IsUnderWay

end Game

end BisimPlay
