import BisimPlay.Proofs.Contest.Verdict

/-!
# Verdicts as a relation on names

A contest says of two names whether their processes are bisimilar, and each pair of names
has a contest of its own: another arena, numbered in another order, and ranked again.
Their verdicts fit together all the same. With strong attacks, and answers under either
semantics, "is found bisimilar" is an equivalence relation on the declared names, as long
as the arenas are within the words that number their nodes.
-/

namespace BisimPlay

open TransitionSystem

namespace Contest

/-- The contest of two names finds their processes bisimilar; attacks are strong, and
answers are under a semantics. -/
def Confirms (lts : TransitionSystem) (defender : Semantics) (left right : String) : Prop :=
  ∃ contest, ofNames lts .strong defender left right = .ok contest ∧
    contest.isBisimilar = true

/-- The nodes of the contest of two names are fewer than the word that stands for
infinity. -/
def IsNumbered (lts : TransitionSystem) (defender : Semantics) (left right : String) : Prop :=
  ∀ contest, ofNames lts .strong defender left right = .ok contest →
    contest.arena.size < 0xFFFFFFFF

variable {lts : TransitionSystem} {defender : Semantics} {left right : String}
  {p q : ProcessId}

theorem Confirms.exists_process? (h : Confirms lts defender left right) :
    ∃ p q, lts.process? left = some p ∧ lts.process? right = some q := by
  obtain ⟨contest, hcontest, _⟩ := h
  obtain ⟨hleft, hright, _⟩ := of_ofNames_eq_ok hcontest
  rw [resolve_eq_ok_iff] at hleft hright
  exact ⟨_, _, hleft, hright⟩

theorem confirms_iff_bisimilar (hsize : IsNumbered lts defender left right)
    (hleft : lts.process? left = some p) (hright : lts.process? right = some q) :
    Confirms lts defender left right ↔ lts.Bisimilar defender defender p q := by
  have hcontest := ofNames_eq_ok lts .strong defender left right p q hleft hright
  have hverdict := isBisimilar_ofProcesses_iff lts .strong defender p q (hsize _ hcontest)
  rw [← bisimilar_strong_left_iff, ← hverdict, Confirms, hcontest]
  simp

/-- Verdicts are an equivalence relation on the declared names: each name is confirmed with
itself, and the contests of two names and of three agree with each other, although each has
an arena of its own. -/
theorem confirms_refl_symm_trans (lts : TransitionSystem) (defender : Semantics) :
    (∀ x, (lts.process? x).isSome = true → IsNumbered lts defender x x →
      Confirms lts defender x x) ∧
    (∀ x y, IsNumbered lts defender x y → IsNumbered lts defender y x →
      Confirms lts defender x y → Confirms lts defender y x) ∧
    (∀ x y z, IsNumbered lts defender x y → IsNumbered lts defender y z →
      IsNumbered lts defender x z → Confirms lts defender x y → Confirms lts defender y z →
        Confirms lts defender x z) := by
  have hequivalence := lts.bisimilar_equivalence defender
  refine ⟨?_, ?_, ?_⟩
  · intro x hx hsize
    obtain ⟨p, hp⟩ := Option.isSome_iff_exists.1 hx
    rw [confirms_iff_bisimilar hsize hp hp]
    exact hequivalence.refl p
  · intro x y hsize hsize' hxy
    obtain ⟨p, q, hp, hq⟩ := hxy.exists_process?
    rw [confirms_iff_bisimilar hsize hp hq] at hxy
    rw [confirms_iff_bisimilar hsize' hq hp]
    exact hequivalence.symm hxy
  · intro x y z hsize hsize' hsize'' hxy hyz
    obtain ⟨p, q, hp, hq⟩ := hxy.exists_process?
    obtain ⟨_, r, _, hr⟩ := hyz.exists_process?
    rw [confirms_iff_bisimilar hsize hp hq] at hxy
    rw [confirms_iff_bisimilar hsize' hq hr] at hyz
    rw [confirms_iff_bisimilar hsize'' hp hr]
    exact hequivalence.trans hxy hyz

theorem isNumbered_turns (defender : Semantics) (left right : String) :
    IsNumbered turns defender left right := by
  intro contest hcontest
  rw [(of_ofNames_eq_ok hcontest).2.2]
  exact size_arena_turns_lt _ _ _ _

/-- Under weak answers `X`, `Y` and `Z` are confirmed with each other. -/
theorem confirms_turns :
    (turns.process? "X").isSome = true ∧ Confirms turns .weak "X" "X" ∧
      Confirms turns .weak "X" "Y" ∧ Confirms turns .weak "Y" "X" ∧
      Confirms turns .weak "Y" "Z" ∧ Confirms turns .weak "X" "Z" := by
  obtain ⟨hX, hY, hZ⟩ := process?_turns
  obtain ⟨hrefl, hsymm, htrans⟩ := confirms_refl_symm_trans turns .weak
  have hnumbered := isNumbered_turns .weak
  have hXY : Confirms turns .weak "X" "Y" :=
    ⟨_, ofNames_eq_ok turns .strong .weak _ _ _ _ hX hY, isBisimilar_turns⟩
  have hYZ : Confirms turns .weak "Y" "Z" := by
    refine ⟨_, ofNames_eq_ok turns .strong .weak _ _ _ _ hY hZ, ?_⟩
    rw [isBisimilar, ranking_ofProcesses]
    decide +kernel
  have hdeclared : (turns.process? "X").isSome = true := by rw [hX]; rfl
  exact ⟨hdeclared, hrefl _ hdeclared (hnumbered _ _), hXY,
    hsymm _ _ (hnumbered _ _) (hnumbered _ _) hXY, hYZ,
    htrans _ _ _ (hnumbered _ _) (hnumbered _ _) (hnumbered _ _) hXY hYZ⟩

end Contest

end BisimPlay
