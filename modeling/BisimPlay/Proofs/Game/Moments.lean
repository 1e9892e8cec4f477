import BisimPlay.Proofs.Game.Alternation
import Mathlib.Algebra.Ring.Parity

/-!
# The moments of a schedule

Where each of two players thinks for a fixed time, and they move in turns, every move has its
moment: the time of the start, and for each move the thinking time of the player who makes it.
How many moments have passed then follows from how much time has gone by.
-/

namespace BisimPlay

section Moments

variable (delay : Role → UInt64) (start : Nat)

/-- When a move is made in a game that was started at some moment: the moves from the first on have
the numbers from one on, and the odd ones are attacks. -/
def moment (n : Nat) : Nat :=
  start + (n + 1) / 2 * (delay .attacker).toNat + n / 2 * (delay .defender).toNat

theorem moment_zero : moment delay start 0 = start := by simp [moment]

theorem moment_two_mul (k : Nat) : moment delay start (2 * k) =
    start + k * ((delay .attacker).toNat + (delay .defender).toNat) := by
  have hattacks : (2 * k + 1) / 2 = k := by omega
  rw [moment, hattacks, Nat.mul_div_cancel_left k Nat.two_pos, Nat.add_assoc, Nat.mul_add]

theorem moment_two_mul_add_one (k : Nat) : moment delay start (2 * k + 1) =
    start + k * ((delay .attacker).toNat + (delay .defender).toNat) + (delay .attacker).toNat := by
  have hattacks : (2 * k + 1 + 1) / 2 = k + 1 := by omega
  have hdefences : (2 * k + 1) / 2 = k := by omega
  rw [moment, hattacks, hdefences, Nat.succ_mul, Nat.mul_add]
  omega

theorem moment_succ (n : Nat) :
    moment delay start (n + 1) = moment delay start n + (delay (mover n)).toNat := by
  rcases Nat.even_or_odd' n with ⟨k, rfl | rfl⟩
  · have hmover : mover (2 * k) = .attacker := by simp [mover]
    rw [moment_two_mul_add_one, moment_two_mul, hmover]
  · have hmover : mover (2 * k + 1) = .defender := by simp [mover]
    rw [show 2 * k + 1 + 1 = 2 * (k + 1) from rfl, moment_two_mul, moment_two_mul_add_one, hmover,
      Nat.succ_mul]
    omega

/-- How many moves are made within a time: two for every time in which both players have thought,
and one more if there is time for another attack. -/
def movesWithin (elapsed : Nat) : Nat :=
  elapsed / ((delay .attacker).toNat + (delay .defender).toNat) * 2 +
    if (delay .attacker).toNat ≤
      elapsed % ((delay .attacker).toNat + (delay .defender).toNat) then 1 else 0

theorem movesWithin_add {k rest : Nat}
    (hrest : rest < (delay .attacker).toNat + (delay .defender).toNat) :
    movesWithin delay (k * ((delay .attacker).toNat + (delay .defender).toNat) + rest) =
      k * 2 + if (delay .attacker).toNat ≤ rest then 1 else 0 := by
  rw [movesWithin, Nat.add_comm (k * _) rest,
    Nat.add_mul_div_right _ _ (Nat.zero_lt_of_lt hrest), Nat.div_eq_of_lt hrest, Nat.zero_add,
    Nat.add_mul_mod_self_right, Nat.mod_eq_of_lt hrest]

theorem eq_movesWithin {now n : Nat} (hpast : moment delay start n ≤ now)
    (hnext : now < moment delay start (n + 1)) : n = movesWithin delay (now - start) := by
  rcases Nat.even_or_odd' n with ⟨k, rfl | rfl⟩
  · -- both have moved `k` times, and the attacker is thinking
    rw [moment_two_mul] at hpast
    rw [moment_two_mul_add_one] at hnext
    obtain ⟨rest, rfl⟩ := Nat.exists_eq_add_of_le hpast
    have hrest : rest < (delay .attacker).toNat := by omega
    rw [Nat.add_assoc, Nat.add_sub_cancel_left, movesWithin_add delay (by omega),
      if_neg (Nat.not_le.2 hrest), Nat.mul_comm, Nat.add_zero]
  · -- the attacker has moved once more, and the defender is thinking
    rw [moment_two_mul_add_one] at hpast
    rw [show 2 * k + 1 + 1 = 2 * (k + 1) from rfl, moment_two_mul, Nat.succ_mul] at hnext
    obtain ⟨rest, rfl⟩ := Nat.exists_eq_add_of_le hpast
    have hrest : (delay .attacker).toNat + rest <
        (delay .attacker).toNat + (delay .defender).toNat := by omega
    rw [Nat.add_assoc, Nat.add_assoc, Nat.add_sub_cancel_left, movesWithin_add delay hrest,
      if_pos (Nat.le_add_right _ _), Nat.mul_comm]

def momentsBetween (m n : Nat) : List Nat :=
  (List.range' m (n - m)).map fun k => moment delay start (k + 1)

theorem momentsBetween_self (m : Nat) : momentsBetween delay start m m = [] := by
  rw [momentsBetween, Nat.sub_self]
  rfl

theorem momentsBetween_succ (m : Nat) :
    momentsBetween delay start m (m + 1) = [moment delay start (m + 1)] := by
  rw [momentsBetween, Nat.add_sub_cancel_left]
  rfl

theorem momentsBetween_append {m k n : Nat} (hmk : m ≤ k) (hkn : k ≤ n) :
    momentsBetween delay start m k ++ momentsBetween delay start k n =
      momentsBetween delay start m n := by
  obtain ⟨i, rfl⟩ := Nat.exists_eq_add_of_le hmk
  obtain ⟨j, rfl⟩ := Nat.exists_eq_add_of_le hkn
  rw [momentsBetween, momentsBetween, momentsBetween, ← List.map_append, Nat.add_sub_cancel_left,
    Nat.add_sub_cancel_left, Nat.add_assoc, Nat.add_sub_cancel_left]
  exact congrArg _ List.range'_append_1

theorem momentsBetween_zero (n : Nat) :
    momentsBetween delay start 0 n = (List.range n).map fun k => moment delay start (k + 1) := by
  rw [momentsBetween, Nat.sub_zero, List.range_eq_range']

end Moments

end BisimPlay
