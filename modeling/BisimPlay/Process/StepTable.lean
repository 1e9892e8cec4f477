import BisimPlay.Process.Closures

/-!
# Remembered steps

The weak steps of a process take a search to find, and they may be asked for again
and again. A table remembers the steps it has been asked for. Whatever it remembers
is what the system would answer afresh, and the type says so: the answers of a table
are the steps of its system, in whatever order it is asked.
-/

namespace BisimPlay

/-- Remembered steps of a system under a semantics: one slot for each declared
process, filled or not, and the closures by which a slot is filled. -/
structure StepTable (lts : TransitionSystem) (semantics : Semantics) where
  closures : Deferred lts.tauClosure
  slots : Array (Option (List Transition))
  sound : ∀ i steps, slots[i]? = some (some steps) →
    steps = lts.steps semantics (.ofIndex i)

namespace StepTable

variable {lts : TransitionSystem} {semantics : Semantics}

/-- The table that remembers nothing yet. -/
def blank (lts : TransitionSystem) (semantics : Semantics) :
    StepTable lts semantics where
  closures := lts.closures
  slots := Array.replicate lts.size none
  sound := by
    intro i steps h
    simp [Array.getElem?_replicate] at h

/-- The steps of a process: the remembered ones, or else what the system says. -/
def steps (table : StepTable lts semantics) (p : ProcessId) : List Transition :=
  match table.slots[p.index]? with
  | some (some steps) => steps
  | _ => lts.stepsBy table.closures semantics p

@[simp] theorem steps_eq (table : StepTable lts semantics) (p : ProcessId) :
    table.steps p = lts.steps semantics p := by
  unfold steps
  split
  · next found h => simpa using table.sound _ _ h
  · exact lts.stepsBy_eq table.closures semantics p

/-- Fill the slot of a process with its steps; an undeclared process has no slot. -/
def remember (table : StepTable lts semantics) (p : ProcessId)
    (steps : List Transition) (hsteps : steps = lts.steps semantics p) :
    StepTable lts semantics where
  closures := table.closures
  slots := table.slots.setIfInBounds p.index (some steps)
  sound := by
    intro i found h
    by_cases hi : p.index = i
    · subst hi
      by_cases hp : p.index < table.slots.size
      · simp [hp] at h
        simp [← h, hsteps]
      · simp [hp] at h
    · rw [Array.getElem?_setIfInBounds_ne hi] at h
      exact table.sound _ _ h

/-- Ask for the steps of a process, remembering them for later. -/
def ask (table : StepTable lts semantics) (p : ProcessId) :
    List Transition × StepTable lts semantics :=
  let steps := table.steps p
  (steps, table.remember p steps (table.steps_eq p))

/-- Ask for the steps of several processes in order. -/
def askAll (table : StepTable lts semantics) :
    List ProcessId → List (List Transition) × StepTable lts semantics
  | [] => ([], table)
  | p :: rest =>
    let (steps, table) := table.ask p
    let (others, table) := table.askAll rest
    (steps :: others, table)

end StepTable

end BisimPlay
