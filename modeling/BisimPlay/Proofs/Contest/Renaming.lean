import BisimPlay.Proofs.Arena.Renaming
import BisimPlay.Proofs.Contest.Verdict

/-!
# Contests of renamed processes

Nothing of a contest depends on how its processes are numbered, named or declared, on what
else the system holds, or on where its tables keep them. Two contests whose processes are
renamed into each other, as far as the two processes reach, have the same nodes in the same
order, the same hyperedges, and the same levels.
-/

namespace BisimPlay

open TransitionSystem

namespace Contest

/-- A contest that differs from another in its processes alone: its positions are renamed,
and its nodes, their hyperedges and levels are the same. -/
structure IsRenamed (f : ProcessId → ProcessId) (contest image : Contest) : Prop where
  size_eq : image.arena.size = contest.arena.size
  hyperedges_eq : ∀ n, image.arena.hyperedges n = contest.arena.hyperedges n
  position?_eq : ∀ n, image.arena.position? n = (contest.arena.position? n).map (·.rename f)
  level_eq : ∀ n, image.level n = contest.level n

theorem isRenamed_ofProcesses_of_arena {f : ProcessId → ProcessId}
    {lts other : TransitionSystem} {attacker defender : Semantics}
    {left right left' right' : ProcessId}
    (h : Arena.ofSteps other attacker defender left' right' =
      (Arena.ofSteps lts attacker defender left right).rename f) :
    IsRenamed f (ofProcesses lts attacker defender left right)
      (ofProcesses other attacker defender left' right') := by
  constructor
  · simp [arena_ofProcesses, h, Arena.size, Arena.rename]
  · intro n
    rw [arena_ofProcesses, arena_ofProcesses, h]
    rfl
  · intro n
    simp [arena_ofProcesses, h, Arena.position?, Arena.rename]
  · intro n
    rw [level, level, ranking_ofProcesses, ranking_ofProcesses, h]
    rfl

/-- When a map takes the steps of all processes that two processes reach to the steps of
their images, and tells these processes apart, the contest of the two images is the renamed
contest of the two, under any semantics of attacks and answers. -/
theorem isRenamed_ofProcesses (lts other : TransitionSystem) (f : ProcessId → ProcessId)
    (attacker defender : Semantics) (left right : ProcessId)
    (hf : Set.InjOn f {p | lts.IsReached left right p})
    (hsteps : ∀ p, lts.IsReached left right p →
      other.transitions (f p) = (lts.transitions p).map (·.rename f)) :
    IsRenamed f (ofProcesses lts attacker defender left right)
      (ofProcesses other attacker defender (f left) (f right)) := by
  have hrenaming : IsRenaming f {p | lts.IsReached left right p} lts.transitions
      other.transitions :=
    ⟨hf, fun _ hp _ hstep => IsReached.step hp hstep, hsteps⟩
  exact isRenamed_ofProcesses_of_arena
    (Arena.ofSteps_rename hrenaming IsReached.left IsReached.right attacker defender)

/-- The processes of `turns`, declared in the reverse order under other names, after one
that is not reached from them. -/
def relisted : TransitionSystem :=
  ⟨#[⟨"Spare", [⟨⟨"b"⟩, .ofIndex 3⟩]⟩,
    ⟨"R", [⟨⟨"a"⟩, .ofIndex 2⟩]⟩,
    ⟨"Q", [⟨.tau, .ofIndex 2⟩, ⟨⟨"a"⟩, .ofIndex 1⟩]⟩,
    ⟨"P", [⟨⟨"a"⟩, .ofIndex 3⟩]⟩]⟩

def countDown (p : ProcessId) : ProcessId := .ofIndex (3 - p.index)

def turnsProcesses : List ProcessId := [.ofIndex 0, .ofIndex 1, .ofIndex 2]

theorem mem_of_isReached_turns {left right p : ProcessId} (hleft : left ∈ turnsProcesses)
    (hright : right ∈ turnsProcesses) (h : turns.IsReached left right p) :
    p ∈ turnsProcesses := by
  have hclosed : ∀ q ∈ turnsProcesses, ∀ step ∈ turns.transitions q,
      step.target ∈ turnsProcesses := by
    decide +kernel
  induction h with
  | left => exact hleft
  | right => exact hright
  | step _ hstep ih => exact hclosed _ ih _ hstep

theorem isRenamed_relisted :
    Set.InjOn countDown {p | turns.IsReached (.ofIndex 0) (.ofIndex 1) p} ∧
      (∀ p, turns.IsReached (.ofIndex 0) (.ofIndex 1) p →
        relisted.transitions (countDown p) = (turns.transitions p).map (·.rename countDown)) ∧
      IsRenamed countDown (ofProcesses turns .strong .weak (.ofIndex 0) (.ofIndex 1))
        (ofProcesses relisted .strong .weak (.ofIndex 3) (.ofIndex 2)) := by
  have hmem {p : ProcessId} (hp : turns.IsReached (.ofIndex 0) (.ofIndex 1) p) :
      p ∈ turnsProcesses :=
    mem_of_isReached_turns (by decide) (by decide) hp
  have hf : Set.InjOn countDown {p | turns.IsReached (.ofIndex 0) (.ofIndex 1) p} := by
    have hapart : ∀ p ∈ turnsProcesses, ∀ q ∈ turnsProcesses,
        countDown p = countDown q → p = q := by
      decide +kernel
    exact fun p hp q hq => hapart p (hmem hp) q (hmem hq)
  have hsteps : ∀ p ∈ turnsProcesses, relisted.transitions (countDown p) =
      (turns.transitions p).map (·.rename countDown) := by
    decide +kernel
  have hreached := fun p (hp : turns.IsReached (.ofIndex 0) (.ofIndex 1) p) =>
    hsteps p (hmem hp)
  exact ⟨hf, hreached,
    isRenamed_ofProcesses turns relisted countDown .strong .weak _ _ hf hreached⟩

end Contest

end BisimPlay
