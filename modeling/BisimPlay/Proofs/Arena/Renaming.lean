import BisimPlay.Proofs.Arena.Capacity
import BisimPlay.Proofs.Process.Renaming

/-!
# Arenas of renamed processes

An arena is laid out by looking at the steps of processes and at whether a pair has been
placed before. A renaming keeps both, so two arenas whose processes are renamed grow in
lockstep: the same number of nodes, the same hyperedges, and renamed positions
(`ofSteps_rename`). The numbers of steps of the two systems may differ, and with them the
bounds on the growth; but growth that has come to its end is the same for all larger bounds
(`grow_eq_of_le`).
-/

namespace BisimPlay

variable {f : ProcessId → ProcessId} {s : Set ProcessId}
  {attacks answers attacks' answers' : ProcessId → List Transition}

namespace Position

def rename (f : ProcessId → ProcessId) : Position → Position
  | pair left right => pair (f left) (f right)
  | leftAttack step right => leftAttack (step.rename f) (f right)
  | rightAttack left step => rightAttack (f left) (step.rename f)

@[simp] theorem isPair_rename (f : ProcessId → ProcessId) (position : Position) :
    (position.rename f).isPair = position.isPair := by
  cases position <;> rfl

theorem injOn_rename (hf : Set.InjOn f s) :
    Set.InjOn (rename f) {position | position.IsAmong s} := by
  have hstep := Transition.injOn_rename hf
  rintro (⟨p, q⟩ | ⟨step, q⟩ | ⟨p, step⟩) ⟨hp, hq⟩ (⟨p', q'⟩ | ⟨step', q'⟩ | ⟨p', step'⟩)
    ⟨hp', hq'⟩ heq
  all_goals simp only [rename, reduceCtorEq, pair.injEq, leftAttack.injEq,
    rightAttack.injEq] at heq ⊢
  · exact ⟨hf hp hp' heq.1, hf hq hq' heq.2⟩
  · exact ⟨hstep hp hp' heq.1, hf hq hq' heq.2⟩
  · exact ⟨hf hp hp' heq.1, hstep hq hq' heq.2⟩

theorem answersTo_map (action : Action) (steps : List Transition) :
    answersTo action (steps.map (·.rename f)) =
      (answersTo action steps).map (·.rename f) := by
  simp only [answersTo, List.filter_map]
  rfl

theorem successors_rename (hattacks : IsRenaming f s attacks attacks')
    (hanswers : IsRenaming f s answers answers') {position : Position}
    (h : position.IsAmong s) :
    (position.rename f).successors attacks' answers' =
      (position.successors attacks answers).map (·.rename f) := by
  cases position with
  | pair left right =>
      simp only [rename, successors, hattacks.steps_eq left h.1, hattacks.steps_eq right h.2,
        List.map_append, List.map_map]
      rfl
  | leftAttack step right =>
      simp only [rename, successors, hanswers.steps_eq right h.2, answersTo_map,
        List.map_map]
      rfl
  | rightAttack left step =>
      simp only [rename, successors, hanswers.steps_eq left h.1, answersTo_map,
        List.map_map]
      rfl

end Position

namespace Arena

theorem bundle_rename (position : Position) (nodes : List NodeId) :
    bundle (position.rename f) nodes = bundle position nodes := by
  simp [bundle]

def AllAmong (s : Set ProcessId) (positions : Array Position) : Prop :=
  ∀ position ∈ positions.toList, position.IsAmong s

variable {positions : Array Position}

theorem findIdx?_map_rename (hf : Set.InjOn f s) (h : AllAmong s positions)
    {position : Position} (hposition : position.IsAmong s) :
    (positions.map (·.rename f)).findIdx? (· = position.rename f) =
      positions.findIdx? (· = position) := by
  obtain ⟨list⟩ := positions
  simp only [AllAmong] at h
  rw [List.map_toArray, List.findIdx?_toArray, List.findIdx?_toArray, List.findIdx?_map]
  induction list with
  | nil => rfl
  | cons other rest ih =>
      obtain ⟨hother, hrest⟩ := List.forall_mem_cons.1 h
      have hsame : other.rename f = position.rename f ↔ other = position :=
        (Position.injOn_rename hf).eq_iff hother hposition
      simp [List.findIdx?_cons, hsame, ih hrest]

theorem place_rename (hf : Set.InjOn f s) (h : AllAmong s positions)
    {position : Position} (hposition : position.IsAmong s) :
    place (positions.map (·.rename f)) (position.rename f) =
      ((place positions position).1, (place positions position).2.map (·.rename f)) := by
  unfold place
  rw [Position.isPair_rename, findIdx?_map_rename hf h hposition]
  cases (if position.isPair then positions.findIdx? (· = position) else none) with
  | none => simp
  | some i => rfl

theorem IsPlaced.allAmong {before after : Array Position} {list : List Position}
    {nodes : List NodeId} (hplaced : IsPlaced before list nodes after)
    (h : AllAmong s before) (hlist : ∀ position ∈ list, position.IsAmong s) :
    AllAmong s after := by
  intro position hmem
  rcases hplaced.mem_or_mem position hmem with hmem | hmem
  · exact h position hmem
  · exact hlist position hmem

theorem placeAll_rename (hf : Set.InjOn f s) (h : AllAmong s positions)
    {list : List Position} (hlist : ∀ position ∈ list, position.IsAmong s) :
    placeAll (positions.map (·.rename f)) (list.map (·.rename f)) =
      ((placeAll positions list).1,
        (placeAll positions list).2.map (·.rename f)) := by
  induction list generalizing positions with
  | nil => rfl
  | cons position rest ih =>
      obtain ⟨hposition, hrest⟩ := List.forall_mem_cons.1 hlist
      have hplaced : AllAmong s (place positions position).2 :=
        (isPlaced_place positions position).allAmong h (by simpa)
      simp only [List.map_cons, placeAll, place_rename hf h hposition, ih hplaced hrest]

def rename (f : ProcessId → ProcessId) (arena : Arena) : Arena :=
  ⟨arena.positions.map (·.rename f), arena.edges⟩

variable {arena next : Arena}

theorem AllAmong.expand? (hattacks : IsRenaming f s attacks attacks')
    (hanswers : IsRenaming f s answers answers') (h : AllAmong s arena.positions)
    (hnext : arena.expand? attacks answers = some next) : AllAmong s next.positions := by
  obtain ⟨position, nodes, hposition, hplaced, _⟩ := exists_of_expand?_eq_some hnext
  rw [← Array.getElem?_toList] at hposition
  have hamong := h position (List.mem_of_getElem? hposition)
  exact hplaced.allAmong h fun successor hmem =>
    hamong.successors hattacks.target_mem hanswers.target_mem hmem

theorem expand?_rename (hattacks : IsRenaming f s attacks attacks')
    (hanswers : IsRenaming f s answers answers') (h : AllAmong s arena.positions) :
    (arena.rename f).expand? attacks' answers' =
      (arena.expand? attacks answers).map (·.rename f) := by
  unfold Arena.expand? rename
  rw [Array.getElem?_map]
  cases hposition : arena.positions[arena.edges.size]? with
  | none => rfl
  | some position =>
      rw [← Array.getElem?_toList] at hposition
      have hamong := h position (List.mem_of_getElem? hposition)
      have hsuccessors : ∀ successor ∈ position.successors attacks answers,
          successor.IsAmong s := fun successor hmem =>
        hamong.successors hattacks.target_mem hanswers.target_mem hmem
      simp only [Option.map_some, Position.successors_rename hattacks hanswers hamong,
        placeAll_rename hattacks.injOn h hsuccessors, bundle_rename]

theorem grow_rename (hattacks : IsRenaming f s attacks attacks')
    (hanswers : IsRenaming f s answers answers') (h : AllAmong s arena.positions) (n : Nat) :
    grow attacks' answers' n (arena.rename f) = (grow attacks answers n arena).rename f := by
  induction n generalizing arena with
  | zero => rfl
  | succ n ih =>
      have hexpand := expand?_rename hattacks hanswers h
      cases hnext : arena.expand? attacks answers with
      | none =>
          rw [hnext, Option.map_none] at hexpand
          rw [grow_of_expand?_eq_none _ _ _ _ hexpand,
            grow_of_expand?_eq_none _ _ _ _ hnext]
      | some next =>
          rw [hnext, Option.map_some] at hexpand
          rw [grow_succ_of_expand?_eq_some _ _ _ _ _ hexpand,
            grow_succ_of_expand?_eq_some _ _ _ _ _ hnext]
          exact ih (h.expand? hattacks hanswers hnext)

/-- The arena of two renamed processes is the renamed arena of the two, whatever else the
two systems hold. -/
theorem ofSteps_rename {lts other : TransitionSystem} {left right : ProcessId}
    (h : IsRenaming f s lts.transitions other.transitions) (hleft : left ∈ s)
    (hright : right ∈ s) (attacker defender : Semantics) :
    ofSteps other attacker defender (f left) (f right) =
      (ofSteps lts attacker defender left right).rename f := by
  have hfinished (lts : TransitionSystem) (left right : ProcessId) {n : Nat}
      (hn : capacity lts.stepCount ≤ n) :
      grow (lts.steps attacker) (lts.steps defender) n (start left right) =
        ofSteps lts attacker defender left right :=
    grow_eq_of_le hn (size_edges_ofSteps lts attacker defender left right)
  have hstart : AllAmong s (start left right).positions := by
    simpa [AllAmong, start] using ⟨hleft, hright⟩
  rw [← hfinished other _ _ (Nat.le_max_right (capacity lts.stepCount) _),
    ← hfinished lts _ _ (Nat.le_max_left _ (capacity other.stepCount))]
  rw [show start (f left) (f right) = (start left right).rename f by
    simp [start, rename, Position.rename]]
  exact grow_rename (h.steps attacker) (h.steps defender) hstart _

end Arena

end BisimPlay
