import BisimPlay.Proofs.Process.Rosters
import Mathlib.Data.List.Induction

/-!
# Edits of a roster

An edit declares a name, connects two names or adds a step. Whatever the edits, the tables stay
in step (`isInStep_editAll`), and what stands in them stays where it is: names are appended, and
a step to one row at most (`Extends`).
-/

namespace BisimPlay

namespace Roster

/-- A change of a roster. -/
inductive Edit
  | declare (name : String)
  | connect (source action target : String)
  | addTransition (source : ProcessId) (step : Transition)
deriving DecidableEq

def Edit.names : Edit → List String
  | .declare name => [name]
  | .connect source _ target => [source, target]
  | .addTransition _ _ => []

/-- Whether an edit goes through, and the roster after it. -/
def edit (roster : Roster) : Edit → Bool × Roster
  | .declare name => (true, (roster.declare name).2)
  | .connect source action target => roster.connect source action target
  | .addTransition source step => roster.addTransition source step

/-- The roster after a list of edits, those that fail included. -/
def editAll (roster : Roster) (changes : List Edit) : Roster :=
  changes.foldl (fun roster change => (roster.edit change).2) roster

variable {roster next : Roster} {p source : ProcessId} {name : String} {step : Transition}

@[simp] theorem editAll_nil (roster : Roster) : roster.editAll [] = roster := rfl

@[simp] theorem editAll_cons (roster : Roster) (change : Edit) (rest : List Edit) :
    roster.editAll (change :: rest) = (roster.edit change).2.editAll rest := rfl

theorem editAll_append (roster : Roster) (changes more : List Edit) :
    roster.editAll (changes ++ more) = (roster.editAll changes).editAll more :=
  List.foldl_append

theorem editAll_induction {P : Roster → Prop}
    (declare : ∀ roster name, P roster → P (roster.declare name).2)
    (addTransition : ∀ roster source step, P roster → P (roster.addTransition source step).2)
    (start : P roster) (changes : List Edit) : P (roster.editAll changes) := by
  induction changes generalizing roster with
  | nil => exact start
  | cons change rest ih =>
      rw [editAll_cons]
      apply ih
      cases change with
      | declare name => exact declare _ _ start
      | connect source action target =>
          exact addTransition _ _ _ (declare _ _ (declare _ _ start))
      | addTransition source step => exact addTransition _ _ _ start

theorem isInStep_editAll (h : roster.IsInStep) (changes : List Edit) :
    (roster.editAll changes).IsInStep :=
  editAll_induction (fun _ name h => h.declare name)
    (fun _ source step h => h.addTransition source step) h changes

theorem IsInStep.names_declare (h : roster.IsInStep) (name : String) :
    (roster.declare name).2.names =
      if name ∈ roster.names then roster.names else roster.names.push name := by
  split
  · next hmem =>
      obtain ⟨p, hp⟩ := h.exists_process?_eq_some_iff.2 hmem
      rw [declare_of_process?_eq_some hp]
  · next hnot => rw [declare_of_process?_eq_none (h.process?_eq_none_iff.2 hnot)]

theorem eraseDups_append_singleton (names : List String) (name : String) :
    (names ++ [name]).eraseDups =
      if name ∈ names then names.eraseDups else names.eraseDups ++ [name] := by
  rw [List.eraseDups_append, List.cons_removeAll, List.contains_eq_mem]
  by_cases h : name ∈ names
  · simp [h]
  · simp [h, List.eraseDups_cons]

theorem IsInStep.names_declare_of_eq_eraseDups {words : List String} (h : roster.IsInStep)
    (hwords : roster.names.toList = words.eraseDups) (name : String) :
    (roster.declare name).2.names.toList = (words ++ [name]).eraseDups := by
  have hmem : name ∈ roster.names ↔ name ∈ words := by
    rw [← Array.mem_toList_iff, hwords, List.mem_eraseDups]
  rw [h.names_declare, eraseDups_append_singleton, ← hwords]
  by_cases hname : name ∈ words
  · rw [if_pos hname, if_pos (hmem.2 hname)]
  · rw [if_neg hname, if_neg (mt hmem.1 hname), Array.toList_push]

theorem names_editAll (changes : List Edit) :
    (empty.editAll changes).names.toList = (changes.flatMap Edit.names).eraseDups := by
  induction changes using List.reverseRecOn with
  | nil => rfl
  | append_singleton changes change ih =>
      have hstep := isInStep_editAll isInStep_empty changes
      rw [editAll_append, List.flatMap_append, List.flatMap_singleton]
      cases change with
      | declare name => exact hstep.names_declare_of_eq_eraseDups ih name
      | connect source action target =>
          have hsource := hstep.names_declare_of_eq_eraseDups ih source
          have htarget :=
            (hstep.declare source).names_declare_of_eq_eraseDups hsource target
          rwa [List.append_assoc] at htarget
      | addTransition source step => rwa [Edit.names, List.append_nil]

theorem process?_declare (roster : Roster) (name : String) :
    (roster.declare name).2.process? name = some (roster.declare name).1 := by
  cases h : roster.process? name with
  | none =>
      rw [declare_of_process?_eq_none h]
      exact Std.HashMap.getElem?_insert_self
  | some p => rw [declare_of_process?_eq_some h, h]

theorem transitions_declare (roster : Roster) (name : String) (p : ProcessId) :
    (roster.declare name).2.transitions p = roster.transitions p := by
  cases h : roster.process? name with
  | none =>
      rw [declare_of_process?_eq_none h, transitions, transitions, Array.getElem?_push]
      split
      · next hlast => simp [hlast]
      · rfl
  | some q => rw [declare_of_process?_eq_some h]

theorem transitions_addTransition (step : Transition) (h : source.index < roster.rows.size) :
    (roster.addTransition source step).2.transitions source =
      roster.transitions source ++ [step] := by
  have hrow : roster.rows[source.index]? = some roster.rows[source.index] :=
    Array.getElem?_eq_getElem h
  simp [transitions, addTransition, Array.getElem?_modify, hrow]

theorem transitions_addTransition_of_ne (roster : Roster) (step : Transition) (h : p ≠ source) :
    (roster.addTransition source step).2.transitions p = roster.transitions p := by
  have hindex : source.index ≠ p.index := fun heq => h (ProcessId.index_inj.1 heq.symm)
  simp [transitions, addTransition, Array.getElem?_modify, hindex]

theorem addTransition_of_size_le (step : Transition) (h : roster.rows.size ≤ source.index) :
    roster.addTransition source step = (false, roster) := by
  have hrows : roster.rows.modify source.index (· ++ [step]) = roster.rows := by
    refine Array.ext_getElem? fun i => ?_
    by_cases heq : source.index = i
    · subst heq
      simp [Array.getElem?_modify, Array.getElem?_eq_none h]
    · simp [Array.getElem?_modify, heq]
  rw [addTransition, hrows, decide_eq_false (Nat.not_lt.2 h)]

theorem IsInStep.fst_addTransition_eq_false_iff (h : roster.IsInStep) :
    (roster.addTransition source step).1 = false ↔ roster.name? source = none := by
  simp [Roster.addTransition, name?_eq_none_iff, h.size_rows, size]

/-- Nothing that stands in the first roster is moved or lost in the second: names are appended
to its names, and steps to its rows. -/
structure Extends (roster next : Roster) : Prop where
  names_isPrefix : roster.names.toList <+: next.names.toList
  name?_eq_some : ∀ p name, roster.name? p = some name → next.name? p = some name
  process?_eq_some : ∀ name p, roster.process? name = some p → next.process? name = some p
  transitions_isPrefix : ∀ p, roster.transitions p <+: next.transitions p

/-- At most one row is longer, by one step. -/
def ExtendsOneRow (roster next : Roster) : Prop :=
  ∃ source added, added.length ≤ 1 ∧
    next.transitions source = roster.transitions source ++ added ∧
      ∀ p, p ≠ source → next.transitions p = roster.transitions p

theorem IsInStep.extends_of_isPrefix (h : roster.IsInStep) (hnext : next.IsInStep)
    (hnames : roster.names.toList <+: next.names.toList)
    (hrows : ∀ p, roster.transitions p <+: next.transitions p) : roster.Extends next where
  names_isPrefix := hnames
  name?_eq_some p name hname := by
    rw [name?, ← Array.getElem?_toList] at hname ⊢
    obtain ⟨hlt, -⟩ := List.getElem?_eq_some_iff.1 hname
    rw [← hname, List.prefix_iff_getElem?.1 hnames p.index hlt, List.getElem?_eq_getElem hlt]
  process?_eq_some name p hp := by
    rw [h.process?_eq, Option.map_eq_some_iff] at hp
    obtain ⟨i, hi, rfl⟩ := hp
    rw [hnext.process?_eq, hnames.findIdx?_eq_some hi]
    rfl
  transitions_isPrefix := hrows

theorem Extends.refl (roster : Roster) : roster.Extends roster where
  names_isPrefix := List.prefix_refl _
  name?_eq_some _ _ := id
  process?_eq_some _ _ := id
  transitions_isPrefix _ := List.prefix_refl _

theorem Extends.trans {later : Roster} (h : roster.Extends next)
    (hlater : next.Extends later) : roster.Extends later where
  names_isPrefix := h.names_isPrefix.trans hlater.names_isPrefix
  name?_eq_some p name hp := hlater.name?_eq_some p name (h.name?_eq_some p name hp)
  process?_eq_some name p hp := hlater.process?_eq_some name p (h.process?_eq_some name p hp)
  transitions_isPrefix p := (h.transitions_isPrefix p).trans (hlater.transitions_isPrefix p)

theorem ExtendsOneRow.transitions_isPrefix (h : roster.ExtendsOneRow next) (p : ProcessId) :
    roster.transitions p <+: next.transitions p := by
  obtain ⟨source, added, -, hrow, hothers⟩ := h
  by_cases hp : p = source
  · rw [hp, hrow]
    exact List.prefix_append _ _
  · simp [hothers p hp]

theorem extendsOneRow_addTransition (roster : Roster) (source : ProcessId)
    (step : Transition) : roster.ExtendsOneRow (roster.addTransition source step).2 := by
  by_cases h : source.index < roster.rows.size
  · exact ⟨source, [step], Nat.le_refl 1, transitions_addTransition step h, fun p hp =>
      transitions_addTransition_of_ne roster step hp⟩
  · rw [addTransition_of_size_le step (Nat.le_of_not_lt h)]
    exact ⟨source, [], Nat.zero_le 1, (List.append_nil _).symm, fun _ _ => rfl⟩

theorem extendsOneRow_edit (roster : Roster) (change : Edit) :
    roster.ExtendsOneRow (roster.edit change).2 := by
  cases change with
  | declare name =>
      exact ⟨default, [], Nat.zero_le 1, by simp [edit, transitions_declare],
        fun p _ => transitions_declare roster name p⟩
  | connect source action target =>
      -- The two declarations lengthen no row, so only the step that follows them counts.
      obtain ⟨p, added, hlength, hrow, hothers⟩ :=
        extendsOneRow_addTransition ((roster.declare source).2.declare target).2
          (roster.declare source).1 ⟨⟨action⟩, ((roster.declare source).2.declare target).1⟩
      simp only [transitions_declare] at hrow hothers
      exact ⟨p, added, hlength, hrow, hothers⟩
  | addTransition source step => exact extendsOneRow_addTransition roster source step

theorem IsInStep.extends_declare (h : roster.IsInStep) (name : String) :
    roster.Extends (roster.declare name).2 := by
  refine h.extends_of_isPrefix (h.declare name) ?_ fun p => by simp [transitions_declare]
  rw [h.names_declare]
  split
  · exact List.prefix_refl _
  · simp

theorem IsInStep.extends_addTransition (h : roster.IsInStep) (source : ProcessId)
    (step : Transition) : roster.Extends (roster.addTransition source step).2 :=
  h.extends_of_isPrefix (h.addTransition source step) (List.prefix_refl _)
    (extendsOneRow_addTransition roster source step).transitions_isPrefix

theorem IsInStep.extends_editAll (h : roster.IsInStep) (changes : List Edit) :
    roster.Extends (roster.editAll changes) := by
  have hboth : (roster.editAll changes).IsInStep ∧ roster.Extends (roster.editAll changes) := by
    refine editAll_induction (P := fun next => next.IsInStep ∧ roster.Extends next)
      (fun next name hnext => ⟨hnext.1.declare name, ?_⟩)
      (fun next source step hnext => ⟨hnext.1.addTransition source step, ?_⟩)
      ⟨h, Extends.refl roster⟩ changes
    · exact hnext.2.trans (hnext.1.extends_declare name)
    · exact hnext.2.trans (hnext.1.extends_addTransition source step)
  exact hboth.2

theorem IsInStep.index_source_lt (h : roster.IsInStep) (source target : String) :
    (roster.declare source).1.index <
      ((roster.declare source).2.declare target).2.rows.size := by
  have hextends := (h.declare source).extends_declare target
  exact ((h.declare source).declare target).index_lt_of_process?_eq_some
    (hextends.process?_eq_some _ _ (process?_declare roster source))

theorem IsInStep.fst_connect (h : roster.IsInStep) (source action target : String) :
    (roster.connect source action target).1 = true :=
  decide_eq_true (h.index_source_lt source target)

/-- Connecting adds a step to the row of the source, under the number that the target has then. -/
theorem IsInStep.transitions_connect (h : roster.IsInStep) {source action target : String}
    {s t : ProcessId} (hsource : (roster.connect source action target).2.process? source = some s)
    (htarget : (roster.connect source action target).2.process? target = some t) (p : ProcessId) :
    (roster.connect source action target).2.transitions p =
      if s = p then roster.transitions p ++ [⟨⟨action⟩, t⟩] else roster.transitions p := by
  have hextends := (h.declare source).extends_declare target
  obtain rfl : (roster.declare source).1 = s := Option.some.inj
    ((hextends.process?_eq_some _ _ (process?_declare roster source)).symm.trans hsource)
  obtain rfl : ((roster.declare source).2.declare target).1 = t := Option.some.inj
    ((process?_declare _ target).symm.trans htarget)
  by_cases hp : (roster.declare source).1 = p
  · subst hp
    rw [if_pos rfl, Roster.connect, transitions_addTransition _ (h.index_source_lt source target)]
    simp [transitions_declare]
  · rw [if_neg hp, Roster.connect, transitions_addTransition_of_ne _ _ (Ne.symm hp)]
    simp [transitions_declare]

end Roster

end BisimPlay
