import BisimPlay.Proofs.Process.WeakSteps

/-!
# Bisimulations

A relation between processes is a bisimulation when every attack from one of two
related processes has an answer from the other, with the same action and related
targets. Which steps attack and which steps answer are two parameters: strong
bisimilarity has the steps of the system for both, weak bisimilarity the weak steps
for both.

In the weak game the attacker needs no weak steps. When strong steps have weak answers,
weak steps have weak answers too (`IsSimulation.weakStep`), since a silent path is
answered step by step.

Where attacks and answers are the same steps, bisimilarity is an equivalence relation
(`bisimilar_equivalence`). The game is played with strong attacks, whatever the answers,
and by `bisimilar_strong_left_iff` that makes no difference.
-/

namespace BisimPlay

/-- Steps from the first of two related processes have answers from the second. -/
def IsSimulation (attack answer : ProcessId → Action → ProcessId → Prop)
    (R : ProcessId → ProcessId → Prop) : Prop :=
  ∀ p q a p', R p q → attack p a p' → ∃ q', answer q a q' ∧ R p' q'

/-- Steps from either of two related processes have answers from the other. -/
structure IsBisimulation (attack answer : ProcessId → Action → ProcessId → Prop)
    (R : ProcessId → ProcessId → Prop) : Prop where
  left : IsSimulation attack answer R
  right : IsSimulation attack answer fun q p => R p q

theorem IsSimulation.comp {attack middle answer : ProcessId → Action → ProcessId → Prop}
    {R S : ProcessId → ProcessId → Prop} (hR : IsSimulation attack middle R)
    (hS : IsSimulation middle answer S) :
    IsSimulation attack answer (Relation.Comp R S) := by
  rintro p r a p' ⟨q, hpq, hqr⟩ hstep
  obtain ⟨q', hmiddle, hrelated⟩ := hR p q a p' hpq hstep
  obtain ⟨r', hanswer, hlast⟩ := hS q r a q' hqr hmiddle
  exact ⟨r', hanswer, q', hrelated, hlast⟩

namespace IsBisimulation

variable {attack answer step : ProcessId → Action → ProcessId → Prop}
  {R S : ProcessId → ProcessId → Prop}

theorem eq (step : ProcessId → Action → ProcessId → Prop) :
    IsBisimulation step step Eq := by
  constructor
  · rintro p _ a p' rfl hstep
    exact ⟨p', hstep, rfl⟩
  · rintro q _ a q' rfl hstep
    exact ⟨q', hstep, rfl⟩

theorem swap (hR : IsBisimulation attack answer R) :
    IsBisimulation attack answer fun p q => R q p :=
  ⟨hR.right, hR.left⟩

theorem comp (hR : IsBisimulation step step R) (hS : IsBisimulation step step S) :
    IsBisimulation step step (Relation.Comp R S) := by
  refine ⟨hR.left.comp hS.left, ?_⟩
  change IsSimulation step step (flip (Relation.Comp R S))
  rw [Relation.flip_comp]
  exact hS.right.comp hR.right

end IsBisimulation

namespace TransitionSystem

variable {lts : TransitionSystem} {p q : ProcessId}

def Takes (lts : TransitionSystem) (semantics : Semantics) (p : ProcessId) (a : Action)
    (q : ProcessId) : Prop :=
  ⟨a, q⟩ ∈ lts.steps semantics p

/-- Two processes are bisimilar, for attacks and answers under a semantics each. -/
def Bisimilar (lts : TransitionSystem) (attacker defender : Semantics)
    (p q : ProcessId) : Prop :=
  ∃ R : ProcessId → ProcessId → Prop,
    R p q ∧ IsBisimulation (lts.Takes attacker) (lts.Takes defender) R

/-- Two processes are bisimilar with regard to the steps of the system. -/
def StronglyBisimilar (lts : TransitionSystem) (p q : ProcessId) : Prop :=
  ∃ R : ProcessId → ProcessId → Prop, R p q ∧
    IsBisimulation (fun p a q => ⟨a, q⟩ ∈ lts.transitions p)
      (fun p a q => ⟨a, q⟩ ∈ lts.transitions p) R

/-- Two processes are bisimilar with regard to weak steps. -/
def WeaklyBisimilar (lts : TransitionSystem) (p q : ProcessId) : Prop :=
  ∃ R : ProcessId → ProcessId → Prop, R p q ∧ IsBisimulation lts.WeakStep lts.WeakStep R

theorem takes_weak (lts : TransitionSystem) : lts.Takes .weak = lts.WeakStep := by
  funext p a q
  exact propext (lts.mem_weakSteps_iff p q a)

theorem bisimilar_strong_strong_iff :
    lts.Bisimilar .strong .strong p q ↔ lts.StronglyBisimilar p q := Iff.rfl

theorem bisimilar_weak_weak_iff :
    lts.Bisimilar .weak .weak p q ↔ lts.WeaklyBisimilar p q := by
  rw [Bisimilar, takes_weak, WeaklyBisimilar]

end TransitionSystem

open TransitionSystem

namespace IsSimulation

variable {lts : TransitionSystem} {R : ProcessId → ProcessId → Prop} {p q p' : ProcessId}

theorem silentPath (hR : IsSimulation (lts.Takes .strong) lts.WeakStep R) (hpq : R p q)
    (hpath : lts.SilentPath p p') : ∃ q', lts.SilentPath q q' ∧ R p' q' := by
  induction hpath with
  | refl => exact ⟨q, .refl lts q, hpq⟩
  | tail _ hstep ih =>
      obtain ⟨q', hbefore, hrelated⟩ := ih
      obtain ⟨q'', hanswer, hlast⟩ := hR _ _ _ _ hrelated hstep
      exact ⟨q'', hbefore.trans (weakStep_tau_iff.1 hanswer), hlast⟩

theorem weakStep (hR : IsSimulation (lts.Takes .strong) lts.WeakStep R) :
    IsSimulation lts.WeakStep lts.WeakStep R := by
  intro p q a p' hpq hstep
  cases hstep with
  | silent hpath =>
      obtain ⟨q', hanswer, hrelated⟩ := hR.silentPath hpq hpath
      exact ⟨q', .silent hanswer, hrelated⟩
  | observable ha hbefore hstep hafter =>
      obtain ⟨q₁, hbefore', hpq₁⟩ := hR.silentPath hpq hbefore
      obtain ⟨q₂, hstep', hpq₂⟩ := hR _ _ _ _ hpq₁ hstep
      obtain ⟨q', hafter', hrelated⟩ := hR.silentPath hpq₂ hafter
      exact ⟨q', (hstep'.before hafter').after hbefore', hrelated⟩

theorem strongStep (hR : IsSimulation lts.WeakStep lts.WeakStep R) :
    IsSimulation (lts.Takes .strong) lts.WeakStep R :=
  fun p q a p' hpq hstep => hR p q a p' hpq (.of_mem_transitions hstep)

end IsSimulation

/-- In the weak game strong attacks are as good as weak ones. -/
theorem TransitionSystem.bisimilar_strong_weak_iff {lts : TransitionSystem}
    {p q : ProcessId} : lts.Bisimilar .strong .weak p q ↔ lts.WeaklyBisimilar p q := by
  rw [Bisimilar, takes_weak, WeaklyBisimilar]
  constructor
  · rintro ⟨R, hpq, hR⟩
    exact ⟨R, hpq, hR.left.weakStep, hR.right.weakStep⟩
  · rintro ⟨R, hpq, hR⟩
    exact ⟨R, hpq, hR.left.strongStep, hR.right.strongStep⟩

namespace TransitionSystem

variable {lts : TransitionSystem} {attacker defender : Semantics} {p q : ProcessId}

theorem bisimilar_strong_left_iff (defender : Semantics) :
    lts.Bisimilar .strong defender p q ↔ lts.Bisimilar defender defender p q := by
  cases defender with
  | strong => exact Iff.rfl
  | weak => rw [bisimilar_strong_weak_iff, bisimilar_weak_weak_iff]

theorem Bisimilar.symm (h : lts.Bisimilar attacker defender p q) :
    lts.Bisimilar attacker defender q p := by
  obtain ⟨R, hrelated, hR⟩ := h
  exact ⟨fun p q => R q p, hrelated, hR.swap⟩

theorem bisimilar_equivalence (lts : TransitionSystem) (semantics : Semantics) :
    Equivalence (lts.Bisimilar semantics semantics) := by
  refine ⟨fun p => ⟨Eq, rfl, IsBisimulation.eq _⟩, Bisimilar.symm, ?_⟩
  rintro p q r ⟨R, hpq, hR⟩ ⟨S, hqr, hS⟩
  exact ⟨Relation.Comp R S, ⟨q, hpq, hqr⟩, hR.comp hS⟩

end TransitionSystem

end BisimPlay
