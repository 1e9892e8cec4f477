import BisimPlay.Proofs.Process.Reading

/-!
# Names, numbers and rows

However a roster comes about, from no process or from a listing, its tables are in step: names
and numbers determine each other, and every name has its row (`IsIndexed`). What stands in them
stays where it is (`Extends`), and a step is kept also when the process that it leads to is not
declared, as it may be later or never.
-/

namespace BisimPlay

namespace Roster

variable {roster : Roster} {p : ProcessId} {name : String} {step : Transition}

/-- Names and numbers determine each other, and every name has a row. -/
structure IsIndexed (roster : Roster) : Prop where
  nodup_names : roster.names.toList.Nodup
  size_rows : roster.rows.size = roster.names.size
  process?_eq_some_iff : ∀ name p, roster.process? name = some p ↔ roster.name? p = some name
  resolve_eq_ok_iff : ∀ name p, roster.resolve name = .ok p ↔ roster.name? p = some name

theorem IsInStep.isIndexed (h : roster.IsInStep) (hsize : roster.size ≤ 0x100000000) :
    roster.IsIndexed where
  nodup_names := h.nodup_names
  size_rows := h.size_rows
  process?_eq_some_iff _ _ := h.process?_eq_some_iff hsize
  resolve_eq_ok_iff _ _ := Roster.resolve_eq_ok_iff.trans (h.process?_eq_some_iff hsize)

theorem IsInStep.declare_snd_eq_self_iff (h : roster.IsInStep) :
    (roster.declare name).2 = roster ↔ name ∈ roster.names := by
  constructor
  · intro heq
    have hnames := h.names_declare name
    rw [heq] at hnames
    split at hnames
    · assumption
    · exact absurd (congrArg Array.size hnames) (by simp)
  · intro hmem
    obtain ⟨p, hp⟩ := h.exists_process?_eq_some_iff.2 hmem
    rw [declare_of_process?_eq_some hp]

theorem IsInStep.declare_eq_iff (h : roster.IsInStep) (hsize : roster.size ≤ 0x100000000) :
    roster.declare name = (p, roster) ↔ roster.name? p = some name := by
  rw [← h.process?_eq_some_iff hsize]
  constructor
  · intro heq
    have hprocess := process?_declare roster name
    rwa [heq] at hprocess
  · exact declare_of_process?_eq_some

theorem IsInStep.transitions_of_name?_eq_none (h : roster.IsInStep) (hp : roster.name? p = none) :
    roster.transitions p = [] := by
  have hrow : roster.rows.size ≤ p.index := h.size_rows ▸ name?_eq_none_iff.1 hp
  simp [transitions, Array.getElem?_eq_none hrow]

/-- Only a step from a process without a name fails: a connection declares its source. -/
theorem IsInStep.fst_edit_eq_false_iff (h : roster.IsInStep) (change : Edit) :
    (roster.edit change).1 = false ↔
      ∃ source step, change = .addTransition source step ∧ roster.name? source = none := by
  cases change with
  | declare name => simp [edit]
  | connect source action target => simp [edit, h.fst_connect]
  | addTransition source step => simp [edit, h.fst_addTransition_eq_false_iff]

/-- An edit that fails has written nothing, although a connection writes before it adds. -/
theorem IsInStep.snd_edit_of_fst_eq_false (h : roster.IsInStep) {change : Edit}
    (hchange : (roster.edit change).1 = false) : (roster.edit change).2 = roster := by
  obtain ⟨source, step, rfl, hsource⟩ := (h.fst_edit_eq_false_iff change).1 hchange
  have hrow : roster.rows.size ≤ source.index := h.size_rows ▸ name?_eq_none_iff.1 hsource
  rw [edit, addTransition_of_size_le step hrow]

theorem IsInStep.mem_transitions_editAll (h : roster.IsInStep) (changes : List Edit)
    (hstep : step ∈ roster.transitions p) : step ∈ (roster.editAll changes).transitions p :=
  ((h.extends_editAll changes).transitions_isPrefix p).subset hstep

/-- However a roster is edited, from an empty one or from a listing, no name stands in it twice,
names and numbers determine each other, and every name has its row. A further edit leaves every
process at its name, number and place and lengthens one row at most. Declaring a declared name
yields its process and changes nothing. Only a step from a process that is not declared fails,
and writes nothing; a step to one is kept, and such a process has no steps as long as it is not
declared. -/
theorem isIndexed_and_extends_of_edits (start : Roster) (changes : List Edit)
    (hstart : start = .empty ∨ ∃ text, Listing.readRoster text = .ok start)
    (hedits : start.editAll changes = roster) (hsize : roster.size ≤ 0x100000000) :
    roster.IsIndexed ∧
    (∀ change, roster.Extends (roster.edit change).2 ∧
      roster.ExtendsOneRow (roster.edit change).2) ∧
    (∀ name p, roster.declare name = (p, roster) ↔ roster.name? p = some name) ∧
    (∀ name, (roster.declare name).2 = roster ↔ name ∈ roster.names) ∧
    (∀ change, (roster.edit change).1 = false ↔
      ∃ source step, change = .addTransition source step ∧ roster.name? source = none) ∧
    (∀ change, (roster.edit change).1 = false → (roster.edit change).2 = roster) ∧
    (∀ p, roster.name? p = none → roster.transitions p = []) ∧
    ∀ source step, roster.name? source ≠ none → roster.name? step.target = none →
      ∃ next, roster.addTransition source step = (true, next) ∧
        next.transitions source = roster.transitions source ++ [step] ∧
        next.name? step.target = none ∧
        ∀ more, step ∈ (next.editAll more).transitions source ∧
          ((next.editAll more).name? step.target = none →
            (next.editAll more).transitions step.target = []) := by
  have hinstep : roster.IsInStep := by
    rw [← hedits]
    rcases hstart with rfl | ⟨text, hread⟩
    · exact isInStep_editAll isInStep_empty changes
    · exact isInStep_editAll (Listing.isInStep_of_readRoster hread) changes
  refine ⟨hinstep.isIndexed hsize,
    fun change => ⟨hinstep.extends_editAll [change], extendsOneRow_edit roster change⟩,
    fun name p => hinstep.declare_eq_iff hsize, fun name => hinstep.declare_snd_eq_self_iff,
    hinstep.fst_edit_eq_false_iff, fun change => hinstep.snd_edit_of_fst_eq_false,
    fun p => hinstep.transitions_of_name?_eq_none, fun source step hsource htarget => ?_⟩
  have hrow : source.index < roster.rows.size := by
    rw [hinstep.size_rows]
    exact Nat.lt_of_not_le fun hle => hsource (name?_eq_none_iff.2 hle)
  have hnext := hinstep.addTransition source step
  have hadded := transitions_addTransition step hrow
  have hkept : step ∈ (roster.addTransition source step).2.transitions source := by simp [hadded]
  exact ⟨_, Prod.ext (decide_eq_true hrow) rfl, hadded, htarget, fun more =>
    ⟨hnext.mem_transitions_editAll more hkept,
      (isInStep_editAll hnext more).transitions_of_name?_eq_none⟩⟩

def listed : List Edit := [.connect "P" "a" "Q", .declare "Stop"]

/-- A step is added before its target is declared, under the empty name, and a step from a process
that is never declared is passed over. -/
def additions : List Edit :=
  [.addTransition (.ofIndex 0) ⟨⟨"b"⟩, .ofIndex 3⟩,
    .addTransition (.ofIndex 7) ⟨.tau, .ofIndex 0⟩, .connect "" "c" "P"]

theorem readRoster_listed :
    Listing.readRoster "P a Q\nStop # at rest\n" = .ok (empty.editAll listed) := by
  refine Listing.readRoster_eq_ok_iff.2 ⟨by decide +kernel, congrArg empty.editAll ?_⟩
  decide +kernel

/-- A listing is read and then edited. -/
theorem isIndexed_and_extends_of_listing :
    ∃ start roster, Listing.readRoster "P a Q\nStop # at rest\n" = .ok start ∧
      start.editAll additions = roster ∧ roster.names.toList = ["P", "Q", "Stop", ""] ∧
      roster.IsIndexed ∧ roster.resolve "" = .ok (.ofIndex 3) ∧
      roster.declare "Q" = (.ofIndex 1, roster) ∧
      roster.edit (.addTransition (.ofIndex 7) ⟨.tau, .ofIndex 0⟩) = (false, roster) ∧
      ∃ next, roster.addTransition (.ofIndex 2) ⟨.tau, .ofIndex 7⟩ = (true, next) ∧
        next.transitions (.ofIndex 7) = [] := by
  obtain ⟨roster, hroster⟩ : ∃ roster, (empty.editAll listed).editAll additions = roster :=
    ⟨_, rfl⟩
  have hnames : roster.names.toList = ["P", "Q", "Stop", ""] := by
    rw [← hroster, ← editAll_append, names_editAll]
    decide +kernel
  have hname (p : ProcessId) : roster.name? p = ["P", "Q", "Stop", ""][p.index]? := by
    rw [name?, ← Array.getElem?_toList, hnames]
  have hsize : roster.size ≤ 0x100000000 := by
    rw [size, ← Array.length_toList, hnames]
    decide
  obtain ⟨hindexed, -, hdeclare, -, hfails, hunchanged, -, hstored⟩ :=
    isIndexed_and_extends_of_edits _ additions (.inr ⟨_, readRoster_listed⟩) hroster hsize
  have hfailed := (hfails (.addTransition (.ofIndex 7) ⟨.tau, .ofIndex 0⟩)).2
    ⟨_, _, rfl, (hname _).trans (by decide +kernel)⟩
  obtain ⟨next, hnext, -, hundeclared, hmore⟩ := hstored (.ofIndex 2) ⟨.tau, .ofIndex 7⟩
    (by rw [hname]; decide +kernel) ((hname _).trans (by decide +kernel))
  exact ⟨_, roster, readRoster_listed, hroster, hnames, hindexed,
    (hindexed.resolve_eq_ok_iff _ _).2 ((hname _).trans (by decide +kernel)),
    (hdeclare _ _).2 ((hname _).trans (by decide +kernel)),
    Prod.ext hfailed (hunchanged _ hfailed), next, hnext, (hmore []).2 hundeclared⟩

end Roster

end BisimPlay
