import BisimPlay.Process.Deferred
import BisimPlay.Process.Steps
import BisimPlay.Search.Indexed

/-!
# Kept closures

The weak steps of a process need the silent closures of many others. Here closures
are deferred: each is found once, by a search with an index, and serves every process
that needs it.

Often one observable step leads to what another has silently reached already. Then
everything that follows silently has been listed too, with the same action, and the
step need not be prolonged. Steps that are found in this way are the steps of the
system, by `stepsBy_eq`.
-/

namespace BisimPlay

namespace TransitionSystem

open Search

/-- The silent closures of the declared processes, deferred. -/
def closures (lts : TransitionSystem) : Deferred lts.tauClosure :=
  .first lts.size (fun p => (withinIndexed lts.tauTargets lts.size p).toList)
    fun p => toList_withinIndexed lts.tauTargets lts.size p

/-- Note all that an observable step can be prolonged to, unless the step has been
seen. -/
def prolong (closure : ProcessId → List ProcessId) (finds : Finds Transition)
    (step : Transition) : Finds Transition :=
  if step ∈ finds.seen then finds else finds.noteAll (prolonged closure step)

/-- Find the weak steps of a process. -/
def weakFinds (lts : TransitionSystem) (closure : ProcessId → List ProcessId)
    (p : ProcessId) : Finds Transition :=
  let before := closure p
  (before.flatMap lts.observables).foldl (prolong closure)
    ((Finds.since ∅).noteAll (before.map (⟨.tau, ·⟩)))

/-- The steps of a process under a semantics, by way of kept closures. -/
def stepsBy (lts : TransitionSystem) (closures : Deferred lts.tauClosure) :
    Semantics → ProcessId → List Transition
  | .strong, p => lts.transitions p
  | .weak, p => (lts.weakFinds closures.value p).found.toList

/-- When finds hold with every step all that it can be prolonged to, a step that has
been seen need not be prolonged; and the finds keep that property. -/
theorem foldl_prolong (closure : ProcessId → List ProcessId)
    (htrans : ∀ p q r, q ∈ closure p → r ∈ closure q → r ∈ closure p)
    (finds : Finds Transition) (steps : List Transition)
    (hfull : ∀ step ∈ finds.seen, ∀ next ∈ prolonged closure step, next ∈ finds.seen) :
    steps.foldl (prolong closure) finds =
      finds.noteAll (steps.flatMap (prolonged closure)) := by
  induction steps generalizing finds with
  | nil => simp [Finds.noteAll]
  | cons step rest ih =>
      have hnote : prolong closure finds step =
          finds.noteAll (prolonged closure step) := by
        by_cases hstep : step ∈ finds.seen
        · rw [finds.noteAll_of_forall_mem _ (hfull step hstep)]
          simp [prolong, hstep]
        · simp [prolong, hstep]
      rw [List.foldl_cons, hnote, ih]
      · simp [Finds.noteAll]
      · intro known hknown next hnext
        rw [Finds.mem_seen_noteAll] at hknown ⊢
        rcases hknown with hknown | hknown
        · obtain ⟨q, hq, rfl⟩ := List.mem_map.1 hknown
          obtain ⟨r, hr, rfl⟩ := List.mem_map.1 hnext
          exact .inl (List.mem_map.2 ⟨r, htrans _ q r hq hr, rfl⟩)
        · exact .inr (hfull known hknown next hnext)

theorem weakFinds_eq (lts : TransitionSystem) (p : ProcessId) :
    lts.weakFinds lts.tauClosure p =
      (Finds.since ∅).noteAll (lts.weakRuns lts.tauClosure p) := by
  unfold weakFinds weakRuns
  rw [foldl_prolong lts.tauClosure fun _ _ _ => lts.mem_tauClosure_trans]
  · simp [Finds.noteAll]
  · intro step hstep next hnext
    simp only [Finds.mem_seen_noteAll, Finds.since, Std.HashSet.not_mem_empty, or_false]
      at hstep ⊢
    obtain ⟨q, hq, rfl⟩ := List.mem_map.1 hstep
    obtain ⟨r, hr, rfl⟩ := List.mem_map.1 hnext
    exact List.mem_map.2 ⟨r, lts.mem_tauClosure_trans hq hr, rfl⟩

theorem stepsBy_eq (lts : TransitionSystem) (closures : Deferred lts.tauClosure)
    (semantics : Semantics) (p : ProcessId) :
    lts.stepsBy closures semantics p = lts.steps semantics p := by
  have hvalue : closures.value = lts.tauClosure := funext closures.value_eq
  cases semantics with
  | strong => rfl
  | weak =>
      have hfound := Finds.toList_found_noteAll (Finds.since ∅) []
        (lts.weakRuns lts.tauClosure p) (by simp [Finds.since])
      simpa [stepsBy, hvalue, weakFinds_eq, weakSteps, Finds.since] using hfound

/-- The steps of the declared processes, deferred. -/
def deferredSteps (lts : TransitionSystem) (semantics : Semantics) :
    Deferred (lts.steps semantics) :=
  let closures := lts.closures
  .first lts.size (lts.stepsBy closures semantics) fun p =>
    lts.stepsBy_eq closures semantics p

end TransitionSystem

end BisimPlay
