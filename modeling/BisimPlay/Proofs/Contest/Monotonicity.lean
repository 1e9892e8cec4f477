import BisimPlay.Proofs.Contest.Strata

/-!
# Levels under stronger and weaker rules

Weak steps include the strong ones, so weak rules give a role more to choose from. A
defender with more answers is told apart later, an attacker with more attacks tells apart
sooner (`Alike.mono`). Levels count exchanges, and so they rise with the answers and fall
with the attacks.

Two contests of the same processes under different rules have arenas of their own, but the
one with more steps to choose from comes upon every position of the other
(`exists_position?_of_steps_subset`).
-/

namespace BisimPlay

open TransitionSystem

namespace TransitionSystem

variable {lts : TransitionSystem} {attacker defender attacker' defender' : Semantics}
  {p q : ProcessId} {k : Nat}

theorem steps_strong_subset (lts : TransitionSystem) (p : ProcessId) :
    lts.steps .strong p ⊆ lts.steps .weak p :=
  fun step h => (lts.mem_weakSteps_iff p step.target step.action).2 (.of_mem_transitions h)

/-- With no attack more and no answer less, two processes are not told apart sooner. -/
theorem Alike.mono (hattacks : ∀ p, lts.steps attacker' p ⊆ lts.steps attacker p)
    (hanswers : ∀ p, lts.steps defender p ⊆ lts.steps defender' p)
    (h : lts.Alike attacker defender k p q) : lts.Alike attacker' defender' k p q := by
  induction k generalizing p q with
  | zero => trivial
  | succ k ih =>
      obtain ⟨hleft, hright⟩ := h
      constructor
      · intro a p' hattack
        obtain ⟨q', hanswer, halike⟩ := hleft a p' (hattacks p hattack)
        exact ⟨q', hanswers q hanswer, ih halike⟩
      · intro a q' hattack
        obtain ⟨p', hanswer, halike⟩ := hright a q' (hattacks q hattack)
        exact ⟨p', hanswers p hanswer, ih halike⟩

end TransitionSystem

theorem Position.successors_subset {attacks answers attacks' answers' :
    ProcessId → List Transition} (hattacks : ∀ p, attacks p ⊆ attacks' p)
    (hanswers : ∀ p, answers p ⊆ answers' p) (position : Position) :
    position.successors attacks answers ⊆ position.successors attacks' answers' := by
  cases position with
  | pair left right =>
      intro successor h
      rcases List.mem_append.1 h with h | h
      · exact List.mem_append_left _ (List.map_subset _ (hattacks left) h)
      · exact List.mem_append_right _ (List.map_subset _ (hattacks right) h)
  | leftAttack step right =>
      exact List.map_subset _ (List.filter_subset _ (hanswers right))
  | rightAttack left step =>
      exact List.map_subset _ (List.filter_subset _ (hanswers left))

theorem Arena.IsComplete.exists_position?_of_steps_subset {lts : TransitionSystem}
    {attacker defender attacker' defender' : Semantics} {left right : ProcessId}
    {larger : Arena} (h : larger.IsComplete (lts.steps attacker') (lts.steps defender')
      (.pair left right))
    (hattacks : ∀ p, lts.steps attacker p ⊆ lts.steps attacker' p)
    (hanswers : ∀ p, lts.steps defender p ⊆ lts.steps defender' p) {n : NodeId}
    {position : Position}
    (hn : (ofSteps lts attacker defender left right).position? n = some position) :
    ∃ m, larger.position? m = some position := by
  have hstart : ∀ position ∈ (start left right).positions.toList,
      ∃ m, larger.position? m = some position := by
    simpa [start] using ⟨_, h.root_eq⟩
  rw [position?, ← Array.getElem?_toList] at hn
  refine forall_mem_grow (lts.steps attacker) (lts.steps defender) _ ?_ _ hstart position
    (List.mem_of_getElem? hn)
  rintro other ⟨m, hm⟩ successor hsuccessor
  obtain ⟨targets, _, htargets⟩ := h.targets m other hm
  obtain ⟨target, _, htarget⟩ := exists_target htargets
    (other.successors_subset hattacks hanswers hsuccessor)
  exact ⟨target, htarget⟩

namespace Contest

variable {attacker defender attacker' defender' : Semantics} {n : NodeId}
  {x y : ProcessId}

theorem exists_position?_of_steps_subset {lts : TransitionSystem} {p q : ProcessId}
    (hattacks : ∀ p, lts.steps attacker p ⊆ lts.steps attacker' p)
    (hanswers : ∀ p, lts.steps defender p ⊆ lts.steps defender' p)
    (hlarger : (ofProcesses lts attacker' defender' p q).IsSolved attacker' defender')
    (hn : (ofProcesses lts attacker defender p q).arena.position? n = some (.pair x y)) :
    ∃ m, (ofProcesses lts attacker' defender' p q).arena.position? m = some (.pair x y) := by
  rw [arena_ofProcesses] at hn
  exact hlarger.isComplete.exists_position?_of_steps_subset hattacks hanswers hn

/-- The levels of pairs rise with the answers and fall with the attacks. A contest of two
names with weak answers has all pairs of the one with strong answers, at levels at least as
large, so what is bisimilar under strong answers is bisimilar under weak ones; a contest
with weak attacks has all pairs of the one with strong attacks, at levels at most as
large. -/
theorem level_ofNames_monotone (lts : TransitionSystem) (left right : String)
    (p q : ProcessId) (hleft : lts.process? left = some p)
    (hright : lts.process? right = some q) :
    (∀ attacker, ∃ contest relaxed,
      ofNames lts attacker .strong left right = .ok contest ∧
      ofNames lts attacker .weak left right = .ok relaxed ∧
      (contest.arena.size < 0xFFFFFFFF → relaxed.arena.size < 0xFFFFFFFF →
        (∀ n x y, contest.arena.position? n = some (.pair x y) →
          (∃ m, relaxed.arena.position? m = some (.pair x y)) ∧
          ∀ m, relaxed.arena.position? m = some (.pair x y) →
            (contest.level n).toNat ≤ (relaxed.level m).toNat) ∧
        (contest.isBisimilar = true → relaxed.isBisimilar = true))) ∧
    (∀ defender, ∃ contest pressed,
      ofNames lts .strong defender left right = .ok contest ∧
      ofNames lts .weak defender left right = .ok pressed ∧
      (contest.arena.size < 0xFFFFFFFF → pressed.arena.size < 0xFFFFFFFF →
        ∀ n x y, contest.arena.position? n = some (.pair x y) →
          (∃ m, pressed.arena.position? m = some (.pair x y)) ∧
          ∀ m, pressed.arena.position? m = some (.pair x y) →
            (pressed.level m).toNat ≤ (contest.level n).toNat)) := by
  constructor
  · intro attacker
    refine ⟨_, _, ofNames_eq_ok lts attacker .strong left right p q hleft hright,
      ofNames_eq_ok lts attacker .weak left right p q hleft hright, ?_⟩
    intro hsize hsize'
    have hsolved := isSolved_ofProcesses lts attacker .strong p q hsize
    have hrelaxed := isSolved_ofProcesses lts attacker .weak p q hsize'
    have hsame (p : ProcessId) := List.Subset.refl (lts.steps attacker p)
    have hlevel {m n : NodeId} {x y : ProcessId}
        (hn : (ofProcesses lts attacker .strong p q).arena.position? n = some (.pair x y))
        (hm : (ofProcesses lts attacker .weak p q).arena.position? m = some (.pair x y)) :=
      hsolved.toNat_level_le hrelaxed hn hm fun _ => .mono hsame lts.steps_strong_subset
    refine ⟨fun n x y hn => ⟨?_, fun m hm => hlevel hn hm⟩, fun hbisimilar => ?_⟩
    · exact exists_position?_of_steps_subset hsame lts.steps_strong_subset hrelaxed hn
    · have hroot := hlevel hsolved.isComplete.root_eq hrelaxed.isComplete.root_eq
      rw [isBisimilar_iff] at hbisimilar ⊢
      by_contra hfinite
      have hlt := Level.toNat_lt_of_ne_infinity hfinite
      rw [hbisimilar, Level.toNat_infinity] at hroot
      exact absurd hlt (Nat.not_lt_of_le hroot)
  · intro defender
    refine ⟨_, _, ofNames_eq_ok lts .strong defender left right p q hleft hright,
      ofNames_eq_ok lts .weak defender left right p q hleft hright, ?_⟩
    intro hsize hsize' n x y hn
    have hsolved := isSolved_ofProcesses lts .strong defender p q hsize
    have hpressed := isSolved_ofProcesses lts .weak defender p q hsize'
    have hsame (p : ProcessId) := List.Subset.refl (lts.steps defender p)
    refine ⟨?_, fun m hm => ?_⟩
    · exact exists_position?_of_steps_subset lts.steps_strong_subset hsame hpressed hn
    · exact hpressed.toNat_level_le hsolved hm hn fun _ => .mono lts.steps_strong_subset hsame

/-- Strong rules tell `X` and `Y` apart in one exchange: the silent step of `Y` has no
answer. Weak attacks do so no later, and weak answers no sooner. -/
theorem level_turns_monotone :
    ∃ contest relaxed pressed, ofNames turns .strong .strong "X" "Y" = .ok contest ∧
      ofNames turns .strong .weak "X" "Y" = .ok relaxed ∧
      ofNames turns .weak .strong "X" "Y" = .ok pressed ∧
      (contest.level .root).toNat = 2 ∧
      2 ≤ (relaxed.level .root).toNat ∧ (pressed.level .root).toNat ≤ 2 := by
  obtain ⟨hleft, hright, _⟩ := process?_turns
  obtain ⟨hanswers, hattacks⟩ :=
    level_ofNames_monotone turns "X" "Y" _ _ hleft hright
  have heq (attacker defender : Semantics) :=
    ofNames_eq_ok turns attacker defender "X" "Y" _ _ hleft hright
  have hroot (attacker defender : Semantics) :=
    (isSolved_ofProcesses turns attacker defender (.ofIndex 0) (.ofIndex 1)
      (size_arena_turns_lt _ _ _ _)).isComplete.root_eq
  have hlevel : ((ofProcesses turns .strong .strong (.ofIndex 0) (.ofIndex 1)).level
      .root).toNat = 2 := by
    rw [level, ranking_ofProcesses]
    decide +kernel
  obtain ⟨contest, relaxed, hcontest, hrelaxed, hrises⟩ := hanswers .strong
  obtain rfl := Except.ok.inj (hcontest.symm.trans (heq _ _))
  obtain rfl := Except.ok.inj (hrelaxed.symm.trans (heq _ _))
  have hup := ((hrises (size_arena_turns_lt _ _ _ _) (size_arena_turns_lt _ _ _ _)).1
    _ _ _ (hroot _ _)).2 _ (hroot _ _)
  obtain ⟨contest, pressed, hcontest, hpressed, hfalls⟩ := hattacks .strong
  obtain rfl := Except.ok.inj (hcontest.symm.trans (heq _ _))
  obtain rfl := Except.ok.inj (hpressed.symm.trans (heq _ _))
  have hdown := (hfalls (size_arena_turns_lt _ _ _ _) (size_arena_turns_lt _ _ _ _)
    _ _ _ (hroot _ _)).2 _ (hroot _ _)
  rw [hlevel] at hup hdown
  exact ⟨_, _, _, heq _ _, heq _ _, heq _ _, hlevel, hup, hdown⟩

end Contest

end BisimPlay
