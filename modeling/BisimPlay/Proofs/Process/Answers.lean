import BisimPlay.Process.StepTable
import BisimPlay.Proofs.Process.WeakSteps
import BisimPlay.Proofs.Search.Queue

/-!
# What a table answers

A table of weak steps answers with the weak steps of a process, each once: first the silent
ones, beginning with the step to the process itself, then the observable ones. What the table
has been asked before makes no difference (`ask_askAll`).

The silent closures by which the answers are found are searches that come to an end: a queue
of the places that are still to be visited is drained.
-/

namespace BisimPlay

namespace TransitionSystem

variable {lts : TransitionSystem} {p q : ProcessId} {a : Action}

theorem drains_tauClosure (lts : TransitionSystem) (p : ProcessId) :
    Search.Drains lts.tauTargets [p] [p] (lts.tauClosure p) :=
  Search.drains_within lts.tauTargets _ lts.mem_range_of_tauTargets_ne_nil (by simp) p

theorem exists_tauClosure_eq_cons (lts : TransitionSystem) (p : ProcessId) :
    ∃ rest, lts.tauClosure p = p :: rest := by
  generalize h : lts.tauClosure p = order
  have hdrains := lts.drains_tauClosure p
  rw [h] at hdrains
  cases hdrains with
  | cons _ => exact ⟨_, rfl⟩

theorem weakStep_iff_of_ne_tau (ha : a ≠ .tau) :
    lts.WeakStep p a q ↔ ∃ p' q', lts.SilentPath p p' ∧ ⟨a, q'⟩ ∈ lts.transitions p' ∧
      lts.SilentPath q' q := by
  constructor
  · intro h
    cases h with
    | silent _ => exact absurd rfl ha
    | observable _ hbefore hstep hafter => exact ⟨_, _, hbefore, hstep, hafter⟩
  · rintro ⟨p', q', hbefore, hstep, hafter⟩
    exact .observable ha hbefore hstep hafter

/-- A list of the weak steps of a process: each once, the silent ones first, and of these
the one that stays first. -/
structure ListsWeakSteps (lts : TransitionSystem) (p : ProcessId) (list : List Transition) :
    Prop where
  nodup : list.Nodup
  mem_silent_iff : ∀ q, ⟨.tau, q⟩ ∈ list ↔ lts.SilentPath p q
  mem_observable_iff : ∀ a q, a ≠ .tau →
    (⟨a, q⟩ ∈ list ↔ ∃ p' q', lts.SilentPath p p' ∧ ⟨a, q'⟩ ∈ lts.transitions p' ∧
      lts.SilentPath q' q)
  silent_first : ∃ silent observable : List Transition,
    list = ⟨.tau, p⟩ :: (silent ++ observable) ∧
      (∀ step ∈ silent, step.action = .tau) ∧ ∀ step ∈ observable, step.action ≠ .tau

theorem action_ne_tau_of_mem_prolonged {processes : List ProcessId} {step : Transition}
    (h : step ∈ (processes.flatMap lts.observables).flatMap (prolonged lts.tauClosure)) :
    step.action ≠ .tau := by
  obtain ⟨⟨b, r⟩, hbefore, hstep⟩ := List.mem_flatMap.1 h
  obtain ⟨p', _, hmem⟩ := List.mem_flatMap.1 hbefore
  obtain ⟨q, _, rfl⟩ := List.mem_map.1 hstep
  exact ((lts.mem_observables_iff p' r b).1 hmem).2

theorem listsWeakSteps_weakSteps (lts : TransitionSystem) (p : ProcessId) :
    lts.ListsWeakSteps p (lts.weakSteps p) := by
  refine ⟨lts.nodup_weakSteps p, fun q => ?_, fun a q ha => ?_, ?_⟩
  · rw [mem_weakSteps_iff, weakStep_tau_iff]
  · rw [mem_weakSteps_iff, weakStep_iff_of_ne_tau ha]
  · obtain ⟨rest, hclosure⟩ := lts.exists_tauClosure_eq_cons p
    rw [weakSteps, weakRuns, Search.fresh_append, hclosure]
    refine ⟨Search.fresh [⟨.tau, p⟩] (rest.map (⟨.tau, ·⟩)), _, rfl, ?_, ?_⟩
    · intro step hstep
      obtain ⟨q, _, rfl⟩ := List.mem_map.1 ((Search.mem_fresh _ _ _).1 hstep).1
      rfl
    · intro step hstep
      exact action_ne_tau_of_mem_prolonged ((Search.mem_fresh _ _ _).1 hstep).1

end TransitionSystem

namespace StepTable

theorem fst_ask {lts : TransitionSystem} {semantics : Semantics}
    (table : StepTable lts semantics) (p : ProcessId) :
    (table.ask p).1 = lts.steps semantics p :=
  table.steps_eq p

/-- Whatever a table of weak steps has been asked before, it answers with the weak steps of
a process, as a table that has not been asked does; and every search for the answer comes to
an end. -/
theorem ask_askAll (lts : TransitionSystem) (asked : List ProcessId) (p : ProcessId) :
    let answer := (((blank lts .weak).askAll asked).2.ask p).1
    lts.ListsWeakSteps p answer ∧ answer = ((blank lts .weak).ask p).1 ∧
      ∀ q, Search.Drains lts.tauTargets [q] [q] (lts.tauClosure q) := by
  intro answer
  have hanswer : answer = lts.weakSteps p := fst_ask _ p
  have hblank : ((blank lts .weak).ask p).1 = lts.weakSteps p := fst_ask _ p
  exact ⟨hanswer ▸ lts.listsWeakSteps_weakSteps p, hanswer.trans hblank.symm,
    lts.drains_tauClosure⟩

/-- Two processes that silently lead to each other, of which one has a step to a process that
is not declared. -/
def shuttle : TransitionSystem :=
  ⟨#[⟨"P", [⟨.tau, .ofIndex 1⟩]⟩,
    ⟨"Q", [⟨.tau, .ofIndex 0⟩, ⟨⟨"a"⟩, .ofIndex 2⟩]⟩]⟩

theorem ask_askAll_shuttle :
    let answer := (((blank shuttle .weak).askAll [.ofIndex 2, .ofIndex 0]).2.ask (.ofIndex 0)).1
    answer = [⟨.tau, .ofIndex 0⟩, ⟨.tau, .ofIndex 1⟩, ⟨⟨"a"⟩, .ofIndex 2⟩] ∧
      (⟨"a"⟩ : Action) ≠ .tau ∧
      ∃ p' q', shuttle.SilentPath (.ofIndex 0) p' ∧ ⟨⟨"a"⟩, q'⟩ ∈ shuttle.transitions p' ∧
        shuttle.SilentPath q' (.ofIndex 2) := by
  intro answer
  have hanswer : answer = [⟨.tau, .ofIndex 0⟩, ⟨.tau, .ofIndex 1⟩, ⟨⟨"a"⟩, .ofIndex 2⟩] := by
    rw [show answer = shuttle.weakSteps _ from fst_ask _ _]
    decide +kernel
  have hmem : (⟨⟨"a"⟩, .ofIndex 2⟩ : Transition) ∈ answer := by simp [hanswer]
  obtain ⟨hlists, _⟩ := ask_askAll shuttle [.ofIndex 2, .ofIndex 0] (.ofIndex 0)
  exact ⟨hanswer, by decide, (hlists.mem_observable_iff _ _ (by decide)).1 hmem⟩

end StepTable

end BisimPlay
