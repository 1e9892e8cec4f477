import BisimPlay.Process.Roster
import Mathlib.Data.List.Nodup

/-!
# Tables in step

A roster is three tables that are written to separately. They are in step when no name stands
twice, each name has one row, and the number of a name is its place (`IsInStep`). Every call
keeps them in step, and as long as they are, they answer as the system that they describe does
(`names_toSystem` and the lemmas that follow it).
-/

namespace BisimPlay

namespace TransitionSystem

theorem name?_eq (lts : TransitionSystem) (p : ProcessId) :
    lts.name? p = lts.names[p.index]? := by
  simp [name?, declaration?, names]

theorem process?_eq (lts : TransitionSystem) (name : String) :
    lts.process? name = (lts.names.findIdx? (· = name)).map .ofIndex := by
  obtain ⟨⟨declarations⟩⟩ := lts
  simp only [process?, names, List.findIdx?_toArray, List.findIdx?_map]
  rfl

end TransitionSystem

namespace Roster

/-- No name stands twice, each name has one row, and its number is its place. -/
structure IsInStep (roster : Roster) : Prop where
  nodup_names : roster.names.toList.Nodup
  size_rows : roster.rows.size = roster.names.size
  process?_eq : ∀ name,
    roster.process? name = (roster.names.toList.findIdx? (· = name)).map .ofIndex

variable {roster : Roster} {name : String} {p : ProcessId}

theorem isInStep_empty : empty.IsInStep where
  nodup_names := List.nodup_nil
  size_rows := rfl
  process?_eq _ := by simp [process?, empty]

theorem name?_eq_none_iff : roster.name? p = none ↔ roster.size ≤ p.index := by
  simp [name?, size]

namespace IsInStep

theorem process?_eq_none_iff (h : roster.IsInStep) :
    roster.process? name = none ↔ name ∉ roster.names := by
  rw [h.process?_eq, Option.map_eq_none_iff, List.findIdx?_eq_none_iff, ← Array.mem_toList_iff]
  simp only [decide_eq_false_iff_not]
  exact ⟨fun hne hmem => hne name hmem rfl, fun hne other hmem heq => hne (heq ▸ hmem)⟩

theorem exists_process?_eq_some_iff (h : roster.IsInStep) :
    (∃ p, roster.process? name = some p) ↔ name ∈ roster.names := by
  rw [← Option.ne_none_iff_exists', Ne, h.process?_eq_none_iff, not_not]

theorem process?_eq_idxOf (h : roster.IsInStep) (hname : name ∈ roster.names) :
    roster.process? name = some (.ofIndex (roster.names.toList.idxOf name)) := by
  rw [h.process?_eq, List.findIdx?_eq_some_of_exists ⟨name, by simpa using hname, by simp⟩]
  rfl

theorem process?_eq_some_iff (h : roster.IsInStep) (hsize : roster.size ≤ 0x100000000) :
    roster.process? name = some p ↔ roster.name? p = some name := by
  rw [h.process?_eq, name?, Option.map_eq_some_iff, ← Array.getElem?_toList]
  constructor
  · rintro ⟨i, hi, rfl⟩
    obtain ⟨hlt, hname, _⟩ := List.findIdx?_eq_some_iff_getElem.1 hi
    rw [ProcessId.index_ofIndex i (Nat.lt_of_lt_of_le hlt hsize), List.getElem?_eq_getElem hlt,
      of_decide_eq_true hname]
  · intro hname
    obtain ⟨hlt, rfl⟩ := List.getElem?_eq_some_iff.1 hname
    refine ⟨p.index, List.findIdx?_eq_some_iff_getElem.2 ⟨hlt, by simp, ?_⟩, p.ofIndex_index⟩
    intro j hj heq
    exact absurd (h.nodup_names.getElem_inj_iff.1 (of_decide_eq_true heq)) (Nat.ne_of_lt hj)

theorem index_lt_of_process?_eq_some (h : roster.IsInStep) (hp : roster.process? name = some p) :
    p.index < roster.rows.size := by
  rw [h.process?_eq, Option.map_eq_some_iff] at hp
  obtain ⟨i, hi, rfl⟩ := hp
  obtain ⟨hlt, -⟩ := List.findIdx?_eq_some_iff_getElem.1 hi
  rw [h.size_rows]
  exact Nat.lt_of_le_of_lt (by simpa [ProcessId.index, ProcessId.ofIndex] using Nat.mod_le _ _) hlt

theorem declare (h : roster.IsInStep) (name : String) : (roster.declare name).2.IsInStep := by
  cases hprocess : roster.process? name with
  | some p => rwa [declare_of_process?_eq_some hprocess]
  | none =>
      have hfresh : name ∉ roster.names := h.process?_eq_none_iff.1 hprocess
      rw [declare_of_process?_eq_none hprocess]
      refine ⟨?nodup, by simp [h.size_rows], fun other => ?number⟩
      case nodup =>
        have hne : ∀ other ∈ roster.names, other ≠ name := fun other hmem =>
          ne_of_mem_of_not_mem hmem hfresh
        simpa [List.nodup_append, h.nodup_names] using hne
      case number =>
        change (roster.numbers.insert name _)[other]? = _
        rw [Std.HashMap.getElem?_insert, Array.toList_push, List.findIdx?_append]
        by_cases heq : name = other
        · subst heq
          have hnone := h.process?_eq name
          rw [hprocess, eq_comm, Option.map_eq_none_iff] at hnone
          simp [hnone, size]
        · have hother : roster.numbers[other]? = _ := h.process?_eq other
          simp [heq, hother]

theorem addTransition (h : roster.IsInStep) (source : ProcessId) (step : Transition) :
    (roster.addTransition source step).2.IsInStep where
  nodup_names := h.nodup_names
  size_rows := Array.size_modify.trans h.size_rows
  process?_eq := h.process?_eq

theorem connect (h : roster.IsInStep) (source action target : String) :
    (roster.connect source action target).2.IsInStep :=
  ((h.declare source).declare target).addTransition _ _

theorem names_toSystem (h : roster.IsInStep) :
    roster.toSystem.names = roster.names.toList := by
  apply List.ext_getElem
  · simp [toSystem, TransitionSystem.names, h.size_rows]
  · intro i hi hlt
    simp [toSystem, TransitionSystem.names]

theorem size_toSystem (h : roster.IsInStep) : roster.toSystem.size = roster.size := by
  simp [toSystem, TransitionSystem.size, size, h.size_rows]

theorem process?_toSystem (h : roster.IsInStep) (name : String) :
    roster.toSystem.process? name = roster.process? name := by
  rw [TransitionSystem.process?_eq, h.names_toSystem, h.process?_eq]

theorem resolve_toSystem (h : roster.IsInStep) (name : String) :
    roster.toSystem.resolve name = roster.resolve name := by
  have hsame := h.process?_toSystem name
  cases hfound : roster.process? name <;>
    simp [TransitionSystem.resolve, resolve, hsame, hfound]

theorem name?_toSystem (h : roster.IsInStep) (p : ProcessId) :
    roster.toSystem.name? p = roster.name? p := by
  rw [TransitionSystem.name?_eq, h.names_toSystem, name?, Array.getElem?_toList]

theorem label_toSystem (h : roster.IsInStep) (p : ProcessId) :
    roster.toSystem.label p = roster.label p := by
  rw [TransitionSystem.label, label, h.name?_toSystem]

theorem transitions_toSystem (h : roster.IsInStep) (p : ProcessId) :
    roster.toSystem.transitions p = roster.transitions p := by
  by_cases hlt : p.index < roster.names.size <;>
    simp [toSystem, TransitionSystem.transitions, TransitionSystem.declaration?, transitions,
      hlt, h.size_rows]

/-- Up to the number of words, a system is known by what is said of each name. -/
theorem toSystem_eq (h : roster.IsInStep) (hsize : roster.size ≤ 0x100000000)
    {steps : String → List Transition}
    (hsteps : ∀ p name, roster.name? p = some name → roster.transitions p = steps name) :
    roster.toSystem = ⟨roster.names.map fun name => ⟨name, steps name⟩⟩ := by
  refine congrArg TransitionSystem.mk (Array.ext (by simp [h.size_rows]) fun i hi hlt => ?_)
  rw [Array.size_map] at hlt
  have hindex := ProcessId.index_ofIndex i (Nat.lt_of_lt_of_le hlt hsize)
  have hrow := hsteps (.ofIndex i) roster.names[i] (by simp [name?, hindex, hlt])
  simpa [transitions, hindex, h.size_rows, hlt] using hrow

end IsInStep

end Roster

end BisimPlay
