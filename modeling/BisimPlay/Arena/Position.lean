import BisimPlay.Process.Basic
import BisimPlay.Role

/-!
# Positions of a play

Along a play three kinds of positions alternate. At a pair of processes the
attacker is to move, by any step of either process. After such an attack the
defender is to answer, by a step of the other process with the same action, which
leads to a pair again.

The steps that attacks and answers may take are two functions on processes; they
need not be the same.
-/

namespace BisimPlay

/-- A position of a play. -/
inductive Position
  /-- The attacker is to move on two processes. -/
  | pair (left right : ProcessId)
  /-- The left process took a step, and the right one is to answer. -/
  | leftAttack (step : Transition) (right : ProcessId)
  /-- The right process took a step, and the left one is to answer. -/
  | rightAttack (left : ProcessId) (step : Transition)
deriving DecidableEq, Inhabited

namespace Position

/-- The two processes at a position. After an attack, the attacking side has moved
already. -/
def processes : Position → ProcessId × ProcessId
  | pair left right => (left, right)
  | leftAttack step right => (step.target, right)
  | rightAttack left step => (left, step.target)

/-- Whether a position is a pair. -/
def isPair : Position → Bool
  | pair _ _ => true
  | _ => false

/-- The answers to an action: the steps of a list that have it. -/
def answersTo (action : Action) (steps : List Transition) : List Transition :=
  steps.filter (·.action = action)

/-- Where a play may go from a position, in order: from a pair to all attacks on
the left and then all attacks on the right, from an attack to the pairs that its
answers make. -/
def successors (attacks answers : ProcessId → List Transition) :
    Position → List Position
  | pair left right =>
    (attacks left).map (leftAttack · right) ++ (attacks right).map (rightAttack left ·)
  | leftAttack step right =>
    (answersTo step.action (answers right)).map fun answer =>
      pair step.target answer.target
  | rightAttack left step =>
    (answersTo step.action (answers left)).map fun answer =>
      pair answer.target step.target

theorem isPair_of_mem_successors (attacks answers : ProcessId → List Transition)
    (position next : Position) (h : next ∈ position.successors attacks answers) :
    next.isPair = !position.isPair := by
  cases position with
  | pair left right =>
      rcases List.mem_append.1 h with h | h
      · obtain ⟨step, _, rfl⟩ := List.mem_map.1 h
        rfl
      · obtain ⟨step, _, rfl⟩ := List.mem_map.1 h
        rfl
  | leftAttack step right =>
      obtain ⟨answer, _, rfl⟩ := List.mem_map.1 h
      rfl
  | rightAttack left step =>
      obtain ⟨answer, _, rfl⟩ := List.mem_map.1 h
      rfl

end Position

end BisimPlay
