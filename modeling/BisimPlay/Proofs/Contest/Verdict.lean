import BisimPlay.Contest
import BisimPlay.Proofs.Arena.Traps
import BisimPlay.Proofs.Hypergraph.Levels

/-!
# The verdict of a contest

A contest is solved when its arena is complete and its ranking exact; a contest of two
processes is, as long as node numbers stay below the word that stands for infinity
(`isSolved_ofProcesses`). From there on nothing is said about how arenas are laid out
or how nodes are ranked.

The verdict of a solved contest is bisimilarity. A bisimulation that relates the two
processes makes a trap around the root, so the attacker never wins from it; and if the
attacker never wins from the root, the pairs from which it never wins are a
bisimulation.
-/

namespace BisimPlay

open TransitionSystem

namespace Contest

/-- The arena has all successors of its positions, and the levels count the rounds in
which the attacker wins. -/
structure IsSolved (attacker defender : Semantics) (contest : Contest) : Prop where
  isComplete : contest.arena.IsComplete (contest.lts.steps attacker)
    (contest.lts.steps defender) (.pair contest.left contest.right)
  isExact : contest.ranking.IsExact contest.arena.hypergraph

theorem isComplete_ofProcesses (lts : TransitionSystem) (attacker defender : Semantics)
    (left right : ProcessId)
    (hsize : (ofProcesses lts attacker defender left right).arena.size ≤ 0x100000000) :
    (ofProcesses lts attacker defender left right).arena.IsComplete (lts.steps attacker)
      (lts.steps defender) (.pair left right) := by
  rw [arena_ofProcesses] at hsize ⊢
  exact Arena.isComplete_ofSteps lts attacker defender left right hsize

theorem isSolved_ofProcesses (lts : TransitionSystem) (attacker defender : Semantics)
    (left right : ProcessId)
    (hsize : (ofProcesses lts attacker defender left right).arena.size < 0xFFFFFFFF) :
    (ofProcesses lts attacker defender left right).IsSolved attacker defender := by
  have hcomplete := isComplete_ofProcesses lts attacker defender left right
    (Nat.le_of_lt (Nat.lt_of_lt_of_le hsize (by decide)))
  refine ⟨hcomplete, ?_⟩
  rw [arena_ofProcesses] at hsize hcomplete
  have hgraph : (Arena.ofSteps lts attacker defender left right).hypergraph.size <
      0xFFFFFFFF := by
    rw [Hypergraph.size, Arena.hypergraph, hcomplete.size_edges]
    exact hsize
  obtain ⟨ranking, hranking, hexact⟩ :=
    Hypergraph.exists_rank?_eq_some hcomplete.isClosed hgraph
  rw [ranking_ofProcesses, arena_ofProcesses, hranking]
  exact hexact

theorem ofNames_eq_ok (lts : TransitionSystem) (attacker defender : Semantics)
    (left right : String) (p q : ProcessId) (hleft : lts.process? left = some p)
    (hright : lts.process? right = some q) :
    ofNames lts attacker defender left right =
      .ok (ofProcesses lts attacker defender p q) := by
  simp [ofNames, resolve, hleft, hright]

/-- There is no contest when a name has no process; the left name is looked up first. -/
theorem ofNames_eq_error_iff {lts : TransitionSystem} {attacker defender : Semantics}
    {left right : String} {fault : Fault} :
    ofNames lts attacker defender left right = .error fault ↔
      (lts.process? left = none ∧ fault = .unknownProcess left) ∨
        (lts.process? left).isSome = true ∧ lts.process? right = none ∧
          fault = .unknownProcess right := by
  unfold ofNames TransitionSystem.resolve
  cases lts.process? left with
  | none => simp [eq_comm]
  | some p =>
      cases lts.process? right with
      | none => simp [eq_comm]
      | some q => simp

theorem of_ofNames_eq_ok {lts : TransitionSystem} {attacker defender : Semantics}
    {left right : String} {contest : Contest}
    (h : ofNames lts attacker defender left right = .ok contest) :
    lts.resolve left = .ok contest.left ∧ lts.resolve right = .ok contest.right ∧
      contest = ofProcesses lts attacker defender contest.left contest.right := by
  unfold ofNames at h
  split at h
  · exact absurd h (by simp)
  · next p hleft =>
      split at h
      · exact absurd h (by simp)
      · next q hright =>
          obtain rfl := Except.ok.inj h
          exact ⟨hleft, hright, rfl⟩

variable {attacker defender : Semantics} {contest : Contest}

theorem IsSolved.isBisimilar_iff_bisimilar (h : contest.IsSolved attacker defender) :
    contest.isBisimilar = true ↔
      contest.lts.Bisimilar attacker defender contest.left contest.right := by
  rw [Contest.isBisimilar_iff, level, h.isExact.eq_infinity_iff]
  constructor
  · intro hnever
    exact ⟨_, ⟨.root, h.isComplete.root_eq, hnever⟩,
      h.isComplete.isBisimulation_of_isTrap (Hypergraph.isTrap_never_won _)⟩
  · rintro ⟨R, hrelated, hR⟩
    exact (h.isComplete.isTrap_of_isBisimulation hR).not_isWonWithin
      ⟨_, h.isComplete.root_eq, hrelated⟩

theorem isBisimilar_ofProcesses_iff (lts : TransitionSystem)
    (attacker defender : Semantics) (p q : ProcessId)
    (hsize : (ofProcesses lts attacker defender p q).arena.size < 0xFFFFFFFF) :
    (ofProcesses lts attacker defender p q).isBisimilar = true ↔
      lts.Bisimilar attacker defender p q :=
  (isSolved_ofProcesses lts attacker defender p q hsize).isBisimilar_iff_bisimilar

/-- A process `X` that repeats an action, and processes `Y` and `Z` that take turns at
it, of which `Y` may idle as well. -/
def turns : TransitionSystem :=
  ⟨#[⟨"X", [⟨⟨"a"⟩, .ofIndex 0⟩]⟩,
    ⟨"Y", [⟨.tau, .ofIndex 1⟩, ⟨⟨"a"⟩, .ofIndex 2⟩]⟩,
    ⟨"Z", [⟨⟨"a"⟩, .ofIndex 1⟩]⟩]⟩

theorem process?_turns :
    turns.process? "X" = some (.ofIndex 0) ∧ turns.process? "Y" = some (.ofIndex 1) ∧
      turns.process? "Z" = some (.ofIndex 2) := by
  decide +kernel

theorem isBisimilar_turns :
    (ofProcesses turns .strong .weak (.ofIndex 0) (.ofIndex 1)).isBisimilar = true := by
  rw [isBisimilar, ranking_ofProcesses]
  decide +kernel

theorem size_arena_turns_lt (attacker defender : Semantics) (p q : ProcessId) :
    (ofProcesses turns attacker defender p q).arena.size < 0xFFFFFFFF := by
  have hle := Arena.size_ofSteps_le turns attacker defender p q
  rw [arena_ofProcesses]
  exact Nat.lt_of_le_of_lt hle (by decide)

/-- The contest of two named processes reports them bisimilar exactly when they are, for
the attacks and answers that it is played with. -/
theorem isBisimilar_ofNames_iff_bisimilar (lts : TransitionSystem)
    (attacker defender : Semantics) (left right : String) (p q : ProcessId)
    (hleft : lts.process? left = some p) (hright : lts.process? right = some q) :
    ∃ contest, ofNames lts attacker defender left right = .ok contest ∧
      (contest.arena.size < 0xFFFFFFFF →
        (contest.isBisimilar = true ↔ lts.Bisimilar attacker defender p q) ∧
        (attacker = .strong → defender = .strong →
          (contest.isBisimilar = true ↔ lts.StronglyBisimilar p q))) := by
  refine ⟨_, ofNames_eq_ok lts attacker defender left right p q hleft hright, ?_⟩
  intro hsize
  have hverdict := isBisimilar_ofProcesses_iff lts attacker defender p q hsize
  refine ⟨hverdict, ?_⟩
  rintro rfl rfl
  rw [hverdict, bisimilar_strong_strong_iff]

theorem not_stronglyBisimilar_turns :
    ∃ contest, ofNames turns .strong .strong "X" "Y" = .ok contest ∧
      contest.isBisimilar = false ∧ ¬ turns.StronglyBisimilar (.ofIndex 0) (.ofIndex 1) := by
  obtain ⟨hleft, hright, _⟩ := process?_turns
  obtain ⟨contest, hcontest, hverdict⟩ :=
    isBisimilar_ofNames_iff_bisimilar turns .strong .strong "X" "Y" _ _ hleft hright
  have heq := ofNames_eq_ok turns .strong .strong "X" "Y" _ _ hleft hright
  obtain rfl := Except.ok.inj (hcontest.symm.trans heq)
  have hfalse : (ofProcesses turns .strong .strong (.ofIndex 0) (.ofIndex 1)).isBisimilar =
      false := by
    rw [isBisimilar, ranking_ofProcesses]
    decide +kernel
  refine ⟨_, heq, hfalse, ?_⟩
  rw [← (hverdict (size_arena_turns_lt _ _ _ _)).2 rfl rfl, hfalse]
  exact Bool.false_ne_true

/-- With strong attacks against weak answers, the contest of two named processes reports
weak bisimilarity; it would report the same with weak attacks. -/
theorem isBisimilar_ofNames_weak_iff_weaklyBisimilar (lts : TransitionSystem)
    (left right : String) (p q : ProcessId)
    (hleft : lts.process? left = some p) (hright : lts.process? right = some q) :
    ∃ contest saturated, ofNames lts .strong .weak left right = .ok contest ∧
      ofNames lts .weak .weak left right = .ok saturated ∧
      (contest.arena.size < 0xFFFFFFFF →
        (contest.isBisimilar = true ↔ lts.WeaklyBisimilar p q) ∧
        (saturated.arena.size < 0xFFFFFFFF →
          saturated.isBisimilar = contest.isBisimilar)) := by
  refine ⟨_, _, ofNames_eq_ok lts .strong .weak left right p q hleft hright,
    ofNames_eq_ok lts .weak .weak left right p q hleft hright, ?_⟩
  intro hsize
  have hverdict := isBisimilar_ofProcesses_iff lts .strong .weak p q hsize
  rw [bisimilar_strong_weak_iff] at hverdict
  refine ⟨hverdict, ?_⟩
  intro hsaturated
  have hweak := isBisimilar_ofProcesses_iff lts .weak .weak p q hsaturated
  rw [bisimilar_weak_weak_iff] at hweak
  rw [Bool.eq_iff_iff, hweak, hverdict]

theorem weaklyBisimilar_turns :
    ∃ contest saturated, ofNames turns .strong .weak "X" "Y" = .ok contest ∧
      ofNames turns .weak .weak "X" "Y" = .ok saturated ∧
      contest.isBisimilar = true ∧ saturated.isBisimilar = true ∧
      turns.WeaklyBisimilar (.ofIndex 0) (.ofIndex 1) := by
  obtain ⟨hleft, hright, _⟩ := process?_turns
  obtain ⟨contest, saturated, hcontest, hsaturated, hverdict⟩ :=
    isBisimilar_ofNames_weak_iff_weaklyBisimilar turns "X" "Y" _ _ hleft hright
  have heq := ofNames_eq_ok turns .strong .weak "X" "Y" _ _ hleft hright
  have heq' := ofNames_eq_ok turns .weak .weak "X" "Y" _ _ hleft hright
  obtain rfl := Except.ok.inj (hcontest.symm.trans heq)
  obtain rfl := Except.ok.inj (hsaturated.symm.trans heq')
  obtain ⟨hiff, hsame⟩ := hverdict (size_arena_turns_lt _ _ _ _)
  refine ⟨_, _, heq, heq', isBisimilar_turns, ?_, hiff.1 isBisimilar_turns⟩
  rw [hsame (size_arena_turns_lt _ _ _ _), isBisimilar_turns]

end Contest

end BisimPlay
