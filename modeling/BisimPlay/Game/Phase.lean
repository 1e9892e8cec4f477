import BisimPlay.Role

/-!
# Phases of a game

A game is not started, waits for a role to move, has been won, or was broken off
because a decision failed.
-/

namespace BisimPlay

/-- Where a game stands. -/
inductive Phase
  /-- Not started yet. -/
  | unstarted
  /-- The role holds the turn. -/
  | toMove (role : Role)
  /-- The opponent of the winner had no move. -/
  | finished (winner : Role)
  /-- A decision failed, for the reason given. -/
  | aborted (reason : String)
deriving DecidableEq, Inhabited

namespace Phase

/-- Whether the game has ended, in the regular way or not. -/
def isOver : Phase → Bool
  | finished _ | aborted _ => true
  | unstarted | toMove _ => false

/-- The role that holds the turn. -/
def toMove? : Phase → Option Role
  | toMove role => some role
  | _ => none

/-- The winner of a game that has been won. -/
def winner? : Phase → Option Role
  | finished winner => some winner
  | _ => none

theorem toMove?_eq_some_iff (phase : Phase) (role : Role) :
    phase.toMove? = some role ↔ phase = .toMove role := by
  cases phase <;> simp [toMove?]

theorem toMove?_of_isOver (phase : Phase) (h : phase.isOver = true) :
    phase.toMove? = none := by
  cases phase <;> simp_all [isOver, toMove?]

/-- A game that is not over is yet to be started or waits for a role. -/
theorem eq_unstarted_or_exists_eq_toMove (phase : Phase) (h : phase.isOver = false) :
    phase = .unstarted ∨ ∃ role, phase = .toMove role := by
  cases phase with
  | unstarted => exact .inl rfl
  | toMove role => exact .inr ⟨role, rfl⟩
  | finished winner => exact absurd h (by simp [isOver])
  | aborted reason => exact absurd h (by simp [isOver])

end Phase

end BisimPlay
