import BisimPlay.Arena.Basic
import BisimPlay.Process.Closures
import Std.Data.HashMap.Lemmas

/-!
# Laying out an arena

Whether a pair has a node already is asked for every answer of every attack. While an
arena is laid out, its positions stand in a register that knows the node of each pair,
and steps are found when they are asked for. The outcome is the arena of the two
processes, by `ofPair_eq`.
-/

namespace BisimPlay

namespace Arena

def pairNumber (left right : ProcessId) : Nat := left.index * 0x100000000 + right.index

theorem pairNumber_inj {left right p q : ProcessId} :
    pairNumber left right = pairNumber p q ↔ left = p ∧ right = q := by
  have hright := right.index_lt
  have hq := q.index_lt
  rw [← ProcessId.index_inj, ← ProcessId.index_inj, pairNumber, pairNumber]
  omega

/-- Pairs are kept with the first place of each in a list of positions. -/
def IsIndex (pairs : Std.HashMap Nat Nat) (positions : Array Position) : Prop :=
  ∀ left right,
    pairs[pairNumber left right]? = positions.findIdx? (· = .pair left right)

theorem IsIndex.of_known {pairs next : Std.HashMap Nat Nat}
    {positions : Array Position} {left right : ProcessId} {i n : Nat}
    (h : IsIndex pairs positions)
    (hknown : pairs.getThenInsertIfNew? (pairNumber left right) n = (some i, next)) :
    IsIndex next positions := by
  have hplace := congrArg Prod.fst hknown
  have hnext : _ = next := congrArg Prod.snd hknown
  rw [Std.HashMap.getThenInsertIfNew?_fst] at hplace
  rw [Std.HashMap.getThenInsertIfNew?_snd] at hnext
  have hmem : pairNumber left right ∈ pairs := by
    simp [Std.HashMap.mem_iff_isSome_getElem?, hplace]
  intro p q
  rw [← hnext, Std.HashMap.getElem?_insertIfNew, ← h]
  simp [hmem]

theorem IsIndex.of_new {pairs next : Std.HashMap Nat Nat}
    {positions : Array Position} {left right : ProcessId}
    (h : IsIndex pairs positions)
    (hnew : pairs.getThenInsertIfNew? (pairNumber left right) positions.size =
      (none, next)) :
    IsIndex next (positions.push (.pair left right)) := by
  have hplace := congrArg Prod.fst hnew
  have hnext : _ = next := congrArg Prod.snd hnew
  rw [Std.HashMap.getThenInsertIfNew?_fst] at hplace
  rw [Std.HashMap.getThenInsertIfNew?_snd] at hnext
  have hmem : pairNumber left right ∉ pairs := by
    simp [Std.HashMap.mem_iff_isSome_getElem?, hplace]
  intro p q
  rw [← hnext, Std.HashMap.getElem?_insertIfNew, Array.findIdx?_push, ← h]
  by_cases hpq : left = p ∧ right = q
  · obtain ⟨rfl, rfl⟩ := hpq
    simp [hmem]
  · simp [pairNumber_inj, hpq]

/-- Positions in order, with the first place of each pair. -/
structure Register where
  positions : Array Position
  pairs : Std.HashMap Nat Nat
  isIndex : IsIndex pairs positions

namespace Register

/-- The register of one pair. -/
def single (left right : ProcessId) : Register where
  positions := #[.pair left right]
  pairs := (∅ : Std.HashMap Nat Nat).insert (pairNumber left right) 0
  isIndex := by
    intro p q
    simp [Std.HashMap.getElem?_insert, pairNumber_inj]

/-- Append a position that is no pair. -/
def append (register : Register) (position : Position) (h : position.isPair = false) :
    NodeId × Register :=
  match register with
  | ⟨positions, pairs, hindex⟩ =>
    (.ofIndex positions.size,
      ⟨positions.push position, pairs, by
        intro left right
        have hne : position ≠ .pair left right := by
          rintro rfl
          simp [Position.isPair] at h
        rw [hindex left right]
        simp [Array.findIdx?_push, hne]⟩)

/-- The node of a position, appended unless it is a pair that has a node already. -/
def place : Register → Position → NodeId × Register
  | ⟨positions, pairs, h⟩, .pair left right =>
    match hasked : pairs.getThenInsertIfNew? (pairNumber left right) positions.size with
    | (some i, next) => (.ofIndex i, ⟨positions, next, h.of_known hasked⟩)
    | (none, next) =>
      (.ofIndex positions.size,
        ⟨positions.push (.pair left right), next, h.of_new hasked⟩)
  | register, .leftAttack step right => register.append (.leftAttack step right) rfl
  | register, .rightAttack left step => register.append (.rightAttack left step) rfl

theorem place_eq (register : Register) (position : Position) :
    ((register.place position).1, (register.place position).2.positions) =
      Arena.place register.positions position := by
  obtain ⟨positions, pairs, h⟩ := register
  cases position with
  | pair left right =>
      have hfind := h left right
      simp only [place, Arena.place, Position.isPair, if_true]
      split
      · next i next hasked =>
          have hplace := congrArg Prod.fst hasked
          rw [Std.HashMap.getThenInsertIfNew?_fst, hfind] at hplace
          simp [hplace]
      · next next hasked =>
          have hplace := congrArg Prod.fst hasked
          rw [Std.HashMap.getThenInsertIfNew?_fst, hfind] at hplace
          simp [hplace]
  | leftAttack step right => simp [place, append, Arena.place, Position.isPair]
  | rightAttack left step => simp [place, append, Arena.place, Position.isPair]

/-- The nodes of a list of positions, placed in order after those of others. -/
def placeOnto (nodes : Array NodeId) (register : Register) :
    List Position → Array NodeId × Register
  | [] => (nodes, register)
  | position :: rest =>
    let (node, register) := register.place position
    placeOnto (nodes.push node) register rest

theorem placeOnto_eq (nodes : Array NodeId) (register : Register)
    (list : List Position) :
    ((register.placeOnto nodes list).1.toList,
        (register.placeOnto nodes list).2.positions) =
      (nodes.toList ++ (placeAll register.positions list).1,
        (placeAll register.positions list).2) := by
  induction list generalizing nodes register with
  | nil => simp [placeOnto, placeAll]
  | cons position rest ih =>
      have hplace := register.place_eq position
      simp only [placeOnto, ih, placeAll, ← hplace]
      simp

/-- Give node after node its hyperedges, as long as there is one without; the number
bounds the nodes that are given theirs. -/
def layOut (attacks answers : ProcessId → List Transition) :
    Nat → Register → Array (List Hyperedge) → Arena
  | 0, register, edges => ⟨register.positions, edges⟩
  | n + 1, register, edges =>
    match register.positions[edges.size]? with
    | none => ⟨register.positions, edges⟩
    | some position =>
      let (nodes, register) := register.placeOnto #[] (position.successors attacks answers)
      layOut attacks answers n register (edges.push (bundle position nodes.toList))

theorem layOut_eq (attacks answers : ProcessId → List Transition) (n : Nat)
    (register : Register) (edges : Array (List Hyperedge)) :
    register.layOut attacks answers n edges =
      grow attacks answers n ⟨register.positions, edges⟩ := by
  induction n generalizing register edges with
  | zero => rfl
  | succ n ih =>
      simp only [layOut, grow, expand?]
      cases hposition : register.positions[edges.size]? with
      | none => rfl
      | some position =>
          have hplaced := register.placeOnto_eq #[] (position.successors attacks answers)
          simp only [List.nil_append, Prod.mk.injEq] at hplaced
          simp only [ih, hplaced.1, hplaced.2]

end Register

/-- The arena of two processes of a system, where attacks and answers are steps
under a semantics each. -/
def ofPair (lts : TransitionSystem) (attacker defender : Semantics)
    (left right : ProcessId) : Arena :=
  let attacks := lts.deferredSteps attacker
  let answers := lts.deferredSteps defender
  (Register.single left right).layOut attacks.value answers.value
    (capacity lts.stepCount) #[]

theorem ofPair_eq (lts : TransitionSystem) (attacker defender : Semantics)
    (left right : ProcessId) :
    ofPair lts attacker defender left right =
      ofSteps lts attacker defender left right := by
  have hvalue (semantics : Semantics) :
      (lts.deferredSteps semantics).value = lts.steps semantics :=
    funext (lts.deferredSteps semantics).value_eq
  simp [ofPair, ofSteps, hvalue, Register.layOut_eq, Register.single, start]

end Arena

end BisimPlay
