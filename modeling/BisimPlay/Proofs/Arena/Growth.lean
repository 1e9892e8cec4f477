import BisimPlay.Arena.Basic
import Mathlib.Data.List.Nodup
import Mathlib.Logic.Relation

/-!
# How an arena grows

Placing positions appends to those that are there, so a place once given stays.
`IsPlaced` collects what the placing of a list does, `GrowsInto` relates an arena to what
it becomes node by node, and `IsGrown` is what holds of an arena at every moment of its
growth: each node that has its hyperedges has one target for each of its successors, no
pair stands at two places, and the attacks stand in the order in which the pairs that they
come from were expanded.

Places are positions of an array here, and node numbers are made from them in the end;
only there does the size of a word matter.
-/

namespace BisimPlay

namespace Arena

/-- A position is placed where it stands already, if it is a pair that does, and after
all others otherwise. -/
theorem place_cases (positions : Array Position) (position : Position) :
    (∃ i : Nat, position.isPair = true ∧ positions[i]? = some position ∧
      place positions position = (.ofIndex i, positions)) ∨
    ((position.isPair = true → position ∉ positions.toList) ∧
      place positions position =
        (.ofIndex positions.size, positions.push position)) := by
  unfold place
  cases hpair : position.isPair with
  | false => exact .inr (by simp)
  | true =>
      cases hfind : positions.findIdx? (· = position) with
      | none =>
          have hother : ∀ other ∈ positions, other ≠ position := by simpa using hfind
          exact .inr ⟨fun _ hmem => hother position (by simpa using hmem) rfl, by simp⟩
      | some i =>
          obtain ⟨hi, heq, _⟩ := Array.findIdx?_eq_some_iff_getElem.1 hfind
          exact .inl ⟨i, rfl, by simpa [hi] using heq, by simp⟩

/-- What placing a list of positions does: `after` extends `before`, the nodes lead to
the positions and are all that is new, only pairs that are new are appended, and all
attacks. -/
structure IsPlaced (before : Array Position) (list : List Position)
    (nodes : List NodeId) (after : Array Position) : Prop where
  isPrefix : before.toList <+: after.toList
  nodes_eq : ∃ places : List Nat, nodes = places.map .ofIndex ∧
    places.map (after[·]?) = list.map some
  mem_nodes : ∀ i, before.size ≤ i → i < after.size → .ofIndex i ∈ nodes
  nodup_pairs : (before.toList.filter (·.isPair)).Nodup →
    (after.toList.filter (·.isPair)).Nodup
  attacks_eq : after.toList.filter (!·.isPair) =
    before.toList.filter (!·.isPair) ++ list.filter (!·.isPair)
  mem_or_mem : ∀ position ∈ after.toList, position ∈ before.toList ∨ position ∈ list

theorem getElem?_of_isPrefix {before after : Array Position}
    (h : before.toList <+: after.toList) {i : Nat} {position : Position}
    (hi : before[i]? = some position) : after[i]? = some position := by
  rw [← Array.getElem?_toList] at hi ⊢
  obtain ⟨added, heq⟩ := h
  have hlt := (List.getElem?_eq_some_iff.1 hi).1
  rw [← heq, List.getElem?_append_left hlt, hi]

theorem map_getElem?_of_isPrefix {before after : Array Position}
    (h : before.toList <+: after.toList) {places : List Nat} {list : List Position}
    (hplaces : places.map (before[·]?) = list.map some) :
    places.map (after[·]?) = list.map some := by
  rw [← hplaces]
  apply List.map_congr_left
  intro place hplace
  have hmem := List.mem_map_of_mem (f := (before[·]?)) hplace
  rw [hplaces, List.mem_map] at hmem
  obtain ⟨position, _, hposition⟩ := hmem
  rw [← hposition, getElem?_of_isPrefix h hposition.symm]

theorem isPlaced_place (positions : Array Position) (position : Position) :
    IsPlaced positions [position] [(place positions position).1]
      (place positions position).2 := by
  rcases place_cases positions position with ⟨i, hpair, hi, heq⟩ | ⟨hnew, heq⟩
  · rw [heq]
    refine ⟨List.prefix_refl _, ⟨[i], rfl, by simp [hi]⟩, ?_, id, by simp [hpair], ?_⟩
    · exact fun i hle hlt => absurd hlt (Nat.not_lt.2 hle)
    · exact fun _ h => .inl h
  · rw [heq]
    refine ⟨by simp, ⟨[positions.size], rfl, by simp⟩, ?_, ?_, by simp, by simp⟩
    · intro i hle hlt
      rw [Array.size_push] at hlt
      rw [Nat.le_antisymm (Nat.le_of_lt_succ hlt) hle]
      exact List.mem_singleton_self _
    · intro hnodup
      cases hpair : position.isPair with
      | false => simpa [hpair] using hnodup
      | true =>
          simp only [Array.toList_push, List.filter_append, List.filter_cons, hpair, if_true,
            List.filter_nil]
          refine hnodup.append (by simp) ?_
          intro other hother hsingle
          rw [List.mem_singleton] at hsingle
          subst hsingle
          exact hnew hpair (List.mem_filter.1 hother).1

theorem IsPlaced.cons {before middle after : Array Position} {position : Position}
    {list : List Position} {node : NodeId} {nodes : List NodeId}
    (h : IsPlaced before [position] [node] middle)
    (hrest : IsPlaced middle list nodes after) :
    IsPlaced before (position :: list) (node :: nodes) after := by
  obtain ⟨places, hplaces, hpositions⟩ := hrest.nodes_eq
  obtain ⟨first, hfirst, hposition⟩ := h.nodes_eq
  obtain ⟨i, rfl⟩ : ∃ i, first = [i] := by
    have hlength := congrArg List.length hposition
    exact List.length_eq_one_iff.1 (by simpa using hlength)
  have hi : middle[i]? = some position := by simpa using hposition
  constructor
  · exact h.isPrefix.trans hrest.isPrefix
  · refine ⟨i :: places, by simpa [hplaces] using hfirst, ?_⟩
    rw [List.map_cons, hpositions, getElem?_of_isPrefix hrest.isPrefix hi, List.map_cons]
  · intro j hle hlt
    rcases Nat.lt_or_ge j middle.size with hmiddle | hmiddle
    · rw [List.mem_singleton.1 (h.mem_nodes j hle hmiddle)]
      exact List.mem_cons_self
    · exact List.mem_cons_of_mem _ (hrest.mem_nodes j hmiddle hlt)
  · exact fun hnodup => hrest.nodup_pairs (h.nodup_pairs hnodup)
  · rw [hrest.attacks_eq, h.attacks_eq, List.append_assoc, ← List.filter_append,
      List.singleton_append]
  · intro other hother
    rcases hrest.mem_or_mem other hother with hmiddle | hlist
    · rcases h.mem_or_mem other hmiddle with hbefore | hsingle
      · exact .inl hbefore
      · rw [List.mem_singleton] at hsingle
        exact .inr (by simp [hsingle])
    · exact .inr (List.mem_cons_of_mem _ hlist)

theorem isPlaced_placeAll (positions : Array Position) (list : List Position) :
    IsPlaced positions list (placeAll positions list).1 (placeAll positions list).2 := by
  induction list generalizing positions with
  | nil =>
      refine ⟨List.prefix_refl _, ⟨[], rfl, rfl⟩, ?_, id, by simp [placeAll], ?_⟩
      · exact fun i hle hlt => absurd hlt (Nat.not_lt.2 hle)
      · exact fun _ h => .inl h
  | cons position rest ih =>
      exact (isPlaced_place positions position).cons (ih _)

/-- What holds of an arena at every moment of its growth. -/
structure IsGrown (attacks answers : ProcessId → List Transition) (root : Position)
    (arena : Arena) : Prop where
  root_eq : arena.positions[0]? = some root
  size_le : arena.edges.size ≤ arena.positions.size
  edges_eq : ∀ (i : Nat) (position : Position) (edges : List Hyperedge),
    arena.positions[i]? = some position → arena.edges[i]? = some edges →
      ∃ places : List Nat, edges = bundle position (places.map .ofIndex) ∧
        places.map (arena.positions[·]?) = (position.successors attacks answers).map some
  nodup_pairs : (arena.positions.toList.filter (·.isPair)).Nodup
  attacks_eq : arena.positions.toList.filter (!·.isPair) =
    (arena.positions.toList.take arena.edges.size).flatMap fun position =>
      (position.successors attacks answers).filter (!·.isPair)

section

variable {attacks answers : ProcessId → List Transition} {root : Position}
  {arena next : Arena}

theorem isGrown_start (left right : ProcessId) :
    IsGrown attacks answers (.pair left right) (start left right) := by
  refine ⟨rfl, by simp [start], ?_, ?_, by simp [start, Position.isPair]⟩
  · intro i position edges _ hedges
    simp [start] at hedges
  · simp [start, Position.isPair]

theorem exists_of_expand?_eq_some (h : arena.expand? attacks answers = some next) :
    ∃ position nodes, arena.positions[arena.edges.size]? = some position ∧
      IsPlaced arena.positions (position.successors attacks answers) nodes
        next.positions ∧
      next.edges = arena.edges.push (bundle position nodes) := by
  unfold expand? at h
  split at h
  · exact absurd h (by simp)
  · next position hposition =>
      obtain rfl := Option.some_inj.1 h
      exact ⟨position, _, hposition, isPlaced_placeAll _ _, rfl⟩

theorem expand?_eq_none_iff :
    arena.expand? attacks answers = none ↔ arena.positions.size ≤ arena.edges.size := by
  rw [← Array.getElem?_eq_none_iff, Arena.expand?]
  split
  · next hposition => simp [hposition]
  · next hposition => simp [hposition]

theorem IsGrown.expand? (hgrown : IsGrown attacks answers root arena)
    (h : arena.expand? attacks answers = some next) :
    IsGrown attacks answers root next := by
  obtain ⟨position, nodes, hposition, hplaced, hedges⟩ := exists_of_expand?_eq_some h
  have hlt := (Array.getElem?_eq_some_iff.1 hposition).1
  have hprefix := hplaced.isPrefix.length_le
  simp only [Array.length_toList] at hprefix
  have hstays {i : Nat} {other : Position} (hi : arena.positions[i]? = some other) :
      next.positions[i]? = some other := getElem?_of_isPrefix hplaced.isPrefix hi
  constructor
  · exact hstays hgrown.root_eq
  · rw [hedges, Array.size_push]
    omega
  · intro i other edges hother hi
    rw [hedges, Array.getElem?_push] at hi
    split at hi
    · next hlast =>
        subst hlast
        obtain rfl := Option.some_inj.1 hi
        obtain rfl := Option.some_inj.1 ((hstays hposition).symm.trans hother)
        obtain ⟨places, rfl, hplaces⟩ := hplaced.nodes_eq
        exact ⟨places, rfl, hplaces⟩
    · have hbefore := (Array.getElem?_eq_some_iff.1 hi).1
      have hold := Array.getElem?_eq_getElem (Nat.lt_of_lt_of_le hbefore hgrown.size_le)
      obtain rfl := Option.some_inj.1 ((hstays hold).symm.trans hother)
      obtain ⟨places, heq, hplaces⟩ := hgrown.edges_eq i _ edges hold hi
      exact ⟨places, heq, map_getElem?_of_isPrefix hplaced.isPrefix hplaces⟩
  · exact hplaced.nodup_pairs hgrown.nodup_pairs
  · obtain ⟨added, hadded⟩ := hplaced.isPrefix
    have hlength : arena.edges.size < arena.positions.toList.length := by simpa using hlt
    rw [hplaced.attacks_eq, hgrown.attacks_eq, hedges, Array.size_push, ← hadded,
      List.take_append_of_le_length hlength, List.take_add_one, Array.getElem?_toList,
      hposition, List.flatMap_append]
    simp

/-- An arena grows into another by the expansion of node after node. -/
def GrowsInto (attacks answers : ProcessId → List Transition) : Arena → Arena → Prop :=
  Relation.ReflTransGen fun arena next => arena.expand? attacks answers = some next

theorem growsInto_grow (attacks answers : ProcessId → List Transition) (n : Nat)
    (arena : Arena) : GrowsInto attacks answers arena (grow attacks answers n arena) := by
  induction n generalizing arena with
  | zero => exact .refl
  | succ n ih =>
      cases h : arena.expand? attacks answers with
      | none =>
          rw [grow_of_expand?_eq_none _ _ _ _ h]
          exact .refl
      | some next =>
          rw [grow_succ_of_expand?_eq_some _ _ _ _ _ h]
          exact .head h (ih next)

theorem IsGrown.growsInto (hgrown : IsGrown attacks answers root arena)
    (h : GrowsInto attacks answers arena next) : IsGrown attacks answers root next := by
  induction h with
  | refl => exact hgrown
  | tail _ hexpand ih => exact ih.expand? hexpand

theorem IsGrown.grow (hgrown : IsGrown attacks answers root arena) (n : Nat) :
    IsGrown attacks answers root (grow attacks answers n arena) :=
  hgrown.growsInto (growsInto_grow attacks answers n arena)

theorem forall_mem_grow (attacks answers : ProcessId → List Transition)
    (inside : Position → Prop)
    (hclosed : ∀ position, inside position →
      ∀ successor ∈ position.successors attacks answers, inside successor) (n : Nat)
    (h : ∀ position ∈ arena.positions.toList, inside position) :
    ∀ position ∈ (grow attacks answers n arena).positions.toList, inside position := by
  have hgrows := growsInto_grow attacks answers n arena
  generalize Arena.grow attacks answers n arena = later at hgrows ⊢
  induction hgrows with
  | refl => exact h
  | tail _ hexpand ih =>
      obtain ⟨position, nodes, hposition, hplaced, _⟩ := exists_of_expand?_eq_some hexpand
      intro other hother
      rcases hplaced.mem_or_mem other hother with hbefore | hsuccessor
      · exact ih other hbefore
      · rw [← Array.getElem?_toList] at hposition
        exact hclosed position (ih position (List.mem_of_getElem? hposition)) other hsuccessor

/-- An arena is finished when the number that bounds its growth bounds its nodes. -/
theorem size_edges_grow {n : Nat} (hgrown : IsGrown attacks answers root arena)
    (hn : ∀ m, (grow attacks answers m arena).positions.size ≤ n + arena.edges.size) :
    (grow attacks answers n arena).edges.size =
      (grow attacks answers n arena).positions.size := by
  induction n generalizing arena with
  | zero =>
      have hsize := hn 0
      have hle := hgrown.size_le
      simp only [grow] at hsize ⊢
      omega
  | succ n ih =>
      cases h : arena.expand? attacks answers with
      | none =>
          rw [grow_of_expand?_eq_none _ _ _ _ h]
          exact Nat.le_antisymm hgrown.size_le (expand?_eq_none_iff.1 h)
      | some next =>
          rw [grow_succ_of_expand?_eq_some _ _ _ _ _ h]
          obtain ⟨position, nodes, _, _, hedges⟩ := exists_of_expand?_eq_some h
          refine ih (hgrown.expand? h) fun m => ?_
          have hm := hn (m + 1)
          rw [grow_succ_of_expand?_eq_some _ _ _ _ _ h] at hm
          rw [hedges, Array.size_push]
          omega

theorem grow_add (m n : Nat) :
    grow attacks answers (m + n) arena =
      grow attacks answers n (grow attacks answers m arena) := by
  induction m generalizing arena with
  | zero => rw [Nat.zero_add, grow]
  | succ m ih =>
      cases h : arena.expand? attacks answers with
      | none => rw [grow_of_expand?_eq_none _ _ _ _ h, grow_of_expand?_eq_none _ _ _ _ h,
          grow_of_expand?_eq_none _ _ _ _ h]
      | some next =>
          rw [Nat.succ_add, grow_succ_of_expand?_eq_some _ _ _ _ _ h,
            grow_succ_of_expand?_eq_some _ _ _ _ _ h, ih]

theorem grow_eq_of_le {m n : Nat} (hmn : m ≤ n)
    (h : (grow attacks answers m arena).edges.size =
      (grow attacks answers m arena).positions.size) :
    grow attacks answers n arena = grow attacks answers m arena := by
  obtain ⟨k, rfl⟩ := Nat.exists_eq_add_of_le hmn
  rw [grow_add]
  exact grow_of_expand?_eq_none _ _ _ _ (expand?_eq_none_iff.2 (Nat.le_of_eq h.symm))

end

end Arena

end BisimPlay
