import BisimPlay.Proofs.Game.Coherence

/-!
# Whose move it is

The roles move in turns, and the attacker makes the first move. So the number of moves on record
says which role is to move, and the counter of the turn is that number as far as a word can tell.
Other than in a coherent game, it does not matter how many moves have been made or whether the
game was broken off.
-/

namespace BisimPlay

def mover (n : Nat) : Role := if n % 2 = 0 then .attacker else .defender

theorem mover_succ (n : Nat) : mover (n + 1) = (mover n).opponent := by
  rcases Nat.mod_two_eq_zero_or_one n with heven | hodd
  · have hnext : (n + 1) % 2 = 1 := by omega
    rw [mover, mover, heven, hnext]
    rfl
  · have hnext : (n + 1) % 2 = 0 := by omega
    rw [mover, mover, hodd, hnext]
    rfl

namespace Game

variable {game next : Game} {role : Role} {move : Move} {effects : List Effect}

theorem plays_of_on_start_eq_ok (h : Call.start.on game = .ok (next, effects)) :
    next.phase ≠ .unstarted ∧ next.record.plays = [] := by
  cases becomes_of_on_eq_ok h with
  | started => exact ⟨phase_handOver_ne_unstarted _ _, plays_handOver _ _⟩

theorem plays_of_on_play_eq_ok (h : (Call.play role move).on game = .ok (next, effects)) :
    next.phase ≠ .unstarted ∧ next.record.plays = game.record.plays ++ [(role, move)] := by
  cases becomes_of_on_eq_ok h with
  | moved =>
      exact ⟨phase_handOver_ne_unstarted _ _, (plays_handOver _ _).trans (plays_moved _ _ _)⟩

/-- The turn counts the moves on record, and whoever holds it is the one whose move it is. Both
roles have a player then. -/
structure IsAlternating (game : Game) : Prop where
  step_eq : game.turn.step = .ofNat game.record.plays.length
  mover_eq : ∀ role, game.phase = .toMove role → role = mover game.record.plays.length
  isSome_seated : ∀ role, game.phase = .toMove role → ∀ other, (game.seated other).isSome = true

theorem isAlternating_new (rules : Rules) (echo : Bool) : (new rules echo).IsAlternating :=
  ⟨rfl, fun _ hphase => absurd hphase (by simp [new]), fun _ hphase =>
    absurd hphase (by simp [new])⟩

theorem isAlternating_handOver (hstep : game.turn.step = .ofNat game.record.plays.length)
    (hrole : role = mover game.record.plays.length)
    (hseated : ∀ other, (game.seated other).isSome = true) :
    (game.handOver role).1.IsAlternating where
  step_eq := by rw [turn_handOver, plays_handOver, hstep]
  mover_eq holder hphase := by
    obtain ⟨record, phase, heq, ⟨_, _, rfl⟩ | ⟨_, _, rfl⟩⟩ := game.exists_handOver_fst_eq role
    · rw [heq] at hphase
      exact absurd hphase (by simp)
    · rw [plays_handOver, ← hrole]
      rw [heq] at hphase
      exact (Phase.toMove.inj hphase).symm
  isSome_seated _ _ other := by
    rw [seated_handOver]
    exact hseated other

theorem IsAlternating.on (h : game.IsAlternating) {call : Call}
    (hcall : call.on game = .ok (next, effects)) : next.IsAlternating := by
  cases becomes_of_on_eq_ok hcall with
  | seated attacker defender _ hturn =>
      have hclosed {role : Role} (hphase : game.phase = .toMove role) : False := by
        rw [hphase] at hturn
        exact absurd hturn (by simp [Phase.toMove?])
      exact ⟨h.step_eq, fun _ hphase => (hclosed hphase).elim, fun _ hphase =>
        (hclosed hphase).elim⟩
  | started _ _ hattacker hdefender =>
      refine isAlternating_handOver rfl rfl fun other => ?_
      cases other with
      | attacker => exact hattacker
      | defender => exact hdefender
  | moved role move _ hphase _ =>
      refine isAlternating_handOver ?_ ?_ fun other => ?_
      · rw [turn_moved, Turn.step_advance, plays_moved, h.step_eq, List.length_append]
        exact (UInt32.ofNat_add _ 1).symm
      · rw [plays_moved, List.length_append, List.length_singleton, mover_succ,
          ← h.mover_eq role hphase]
      · exact h.isSome_seated role hphase other
  | stopped => exact ⟨h.step_eq, h.mover_eq, h.isSome_seated⟩
  | aborted fault => exact ⟨h.step_eq, fun _ => Phase.noConfusion, fun _ => Phase.noConfusion⟩

end Game

end BisimPlay
