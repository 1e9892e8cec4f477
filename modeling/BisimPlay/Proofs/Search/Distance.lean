import BisimPlay.Proofs.Search.Queue
import Mathlib.Data.Nat.Find
import Mathlib.Order.Bounds.Basic

/-!
# Searches and distances

The distance of a place is the least number of moves in which it is reached from the start.
The rounds of a search are its layers: after `k` rounds the frontier holds the places at
distance `k`, and what has been seen are the places that are nearer or just there
(`IsLayer`).

A search may also keep a queue in which every place stands with a depth. The start has
depth 1, and a place has one more than the place that found it; places at the limit find
nothing. Such a search runs to its end, it visits what the rounds find in their order, and
the depth of a place is one more than its distance (`exists_expands_within`).
-/

namespace BisimPlay

namespace Search

def Reaches {α : Type} (move : α → α → Prop) (start : α) : Nat → α → Prop
  | 0, a => a = start
  | n + 1, b => ∃ a, Reaches move start n a ∧ move a b

def IsDistance {α : Type} (move : α → α → Prop) (start a : α) (d : Nat) : Prop :=
  IsLeast {n | Reaches move start n a} d

section Distance

variable {α : Type} {move : α → α → Prop} {start a : α} {d e k : Nat}
  {neighbours : α → List α} {seen frontier : List α}

theorem IsDistance.unique (hd : IsDistance move start a d) (he : IsDistance move start a e) :
    d = e :=
  IsLeast.unique hd he

theorem isDistance_zero_iff : IsDistance move start a 0 ↔ a = start :=
  ⟨fun h => h.1, fun h => ⟨h, fun n _ => Nat.zero_le n⟩⟩

theorem isDistance_succ_iff :
    IsDistance move start a (k + 1) ↔
      (∃ b, IsDistance move start b k ∧ move b a) ∧ ∀ n ≤ k, ¬ Reaches move start n a := by
  constructor
  · rintro ⟨⟨b, hb, hmove⟩, hleast⟩
    refine ⟨⟨b, ⟨hb, fun n hn => ?_⟩, hmove⟩, fun n hn hreaches => ?_⟩
    · exact Nat.le_of_succ_le_succ (hleast (show Reaches move start (n + 1) a from ⟨b, hn, hmove⟩))
    · exact absurd (hleast hreaches) (Nat.not_le_of_lt (Nat.lt_succ_of_le hn))
  · rintro ⟨⟨b, hb, hmove⟩, hnone⟩
    exact ⟨⟨b, hb.1, hmove⟩, fun n hn => Nat.lt_of_not_le fun hle => hnone n hle hn⟩

theorem exists_isDistance_le (h : Reaches move start k a) :
    ∃ d ≤ k, IsDistance move start a d := by
  classical
  have hreached : ∃ n, Reaches move start n a := ⟨k, h⟩
  exact ⟨Nat.find hreached, Nat.find_min' hreached h, Nat.find_spec hreached,
    fun n hn => Nat.find_min' hreached hn⟩

/-- The frontier holds the places at a distance, and no nearer or equally near place is
unseen. -/
structure IsLayer (neighbours : α → List α) (start : α) (k : Nat) (seen frontier : List α) :
    Prop where
  mem_frontier_iff : ∀ a, a ∈ frontier ↔ IsDistance (fun a b => b ∈ neighbours a) start a k
  mem_seen_iff : ∀ a, a ∈ seen ↔ ∃ n ≤ k, Reaches (fun a b => b ∈ neighbours a) start n a

theorem isLayer_start (neighbours : α → List α) (start : α) :
    IsLayer neighbours start 0 [start] [start] := by
  refine ⟨fun a => ?_, fun a => ?_⟩
  · rw [List.mem_singleton, isDistance_zero_iff]
  · simp [Reaches]

theorem IsLayer.mem_map_iff (h : IsLayer neighbours start k seen frontier) (depth : Nat)
    (a : α) : (depth, a) ∈ frontier.map (k + 1, ·) ↔
      depth = k + 1 ∧ IsDistance (fun a b => b ∈ neighbours a) start a k := by
  simp [h.mem_frontier_iff, and_comm, eq_comm]

theorem pairwise_map_depth (depth : Nat) (frontier : List α) :
    (frontier.map (depth, ·)).Pairwise fun x y => x.1 ≤ y.1 :=
  List.pairwise_map.2 (List.pairwise_of_forall fun _ _ => Nat.le_refl depth)

end Distance

variable {α : Type} [DecidableEq α] {neighbours : α → List α} {start a : α}
  {seen frontier : List α} {k n limit : Nat}

theorem not_mem_of_mem_rounds (h : a ∈ rounds neighbours n seen frontier)
    (ha : a ∉ frontier) : a ∉ seen := by
  induction n generalizing seen frontier with
  | zero => exact absurd (by simpa using h) ha
  | succ n ih =>
      rw [rounds_succ, List.mem_append] at h
      have hlater := h.resolve_left ha
      by_cases hfound : a ∈ fresh seen (frontier.flatMap neighbours)
      · exact ((mem_fresh _ _ a).1 hfound).2
      · exact fun hseen => ih hlater hfound (List.mem_append_right _ hseen)

theorem nodup_rounds (hfrontier : frontier.Nodup) (hseen : frontier ⊆ seen) :
    (rounds neighbours n seen frontier).Nodup := by
  induction n generalizing seen frontier with
  | zero => simpa using hfrontier
  | succ n ih =>
      rw [rounds_succ, List.nodup_append]
      refine ⟨hfrontier, ih (nodup_fresh _ _) (List.subset_append_left _ _), ?_⟩
      rintro a ha _ hlater rfl
      by_cases hfound : a ∈ fresh seen (frontier.flatMap neighbours)
      · exact ((mem_fresh _ _ a).1 hfound).2 (hseen ha)
      · exact not_mem_of_mem_rounds hlater hfound (List.mem_append_right _ (hseen ha))

theorem IsLayer.next (h : IsLayer neighbours start k seen frontier) :
    IsLayer neighbours start (k + 1) (fresh seen (frontier.flatMap neighbours) ++ seen)
      (fresh seen (frontier.flatMap neighbours)) := by
  have hfrontier (a : α) : a ∈ fresh seen (frontier.flatMap neighbours) ↔
      IsDistance (fun a b => b ∈ neighbours a) start a (k + 1) := by
    rw [mem_fresh, List.mem_flatMap, isDistance_succ_iff, h.mem_seen_iff]
    simp only [h.mem_frontier_iff, not_exists, not_and]
  refine ⟨hfrontier, fun a => ?_⟩
  rw [List.mem_append, hfrontier, h.mem_seen_iff]
  constructor
  · rintro (hdistance | ⟨n, hn, hreaches⟩)
    · exact ⟨k + 1, Nat.le_refl _, hdistance.1⟩
    · exact ⟨n, Nat.le_succ_of_le hn, hreaches⟩
  · rintro ⟨n, hn, hreaches⟩
    obtain ⟨d, hd, hdistance⟩ := exists_isDistance_le hreaches
    rcases Nat.lt_or_ge k d with hlt | hle
    · obtain rfl : d = k + 1 := by omega
      exact .inl hdistance
    · exact .inr ⟨d, hle, hdistance.1⟩

/-- What a place finds that is visited at a depth: its unseen neighbours, unless the depth is
at the limit. -/
def finds (neighbours : α → List α) (limit : Nat) (seen : List α) (depth : Nat) (a : α) :
    List α :=
  if depth < limit then fresh seen (neighbours a) else []

/-- A queue of places with their depths is worked off: the first place is visited and puts
what it finds at the end, one deeper than itself, until none is left. The last list has the
places in the order in which they are visited. -/
inductive Expands (neighbours : α → List α) (limit : Nat) :
    List α → List (Nat × α) → List (Nat × α) → Prop
  | nil {seen : List α} : Expands neighbours limit seen [] []
  | cons {seen : List α} {queue order : List (Nat × α)} {depth : Nat} {a : α}
      (hrest : Expands neighbours limit (finds neighbours limit seen depth a ++ seen)
        (queue ++ (finds neighbours limit seen depth a).map (depth + 1, ·)) order) :
      Expands neighbours limit seen ((depth, a) :: queue) ((depth, a) :: order)

theorem finds_congr {seen' : List α} (h : ∀ a, a ∈ seen ↔ a ∈ seen') (limit depth : Nat) (a : α) :
    finds neighbours limit seen depth a = finds neighbours limit seen' depth a := by
  rw [finds, finds, fresh_congr h]

theorem Expands.congr {seen' : List α} {queue order : List (Nat × α)}
    (h : Expands neighbours limit seen queue order) (hseen : ∀ a, a ∈ seen ↔ a ∈ seen') :
    Expands neighbours limit seen' queue order := by
  induction h generalizing seen' with
  | nil => exact .nil
  | @cons seen queue order depth a _ ih =>
      refine .cons ?_
      rw [← finds_congr hseen]
      exact ih fun b => by simp [hseen]

theorem expands_of_limit_le {depth : Nat} (hlimit : limit ≤ depth) (seen frontier : List α) :
    Expands neighbours limit seen (frontier.map (depth, ·)) (frontier.map (depth, ·)) := by
  induction frontier with
  | nil => exact .nil
  | cons a rest ih =>
      have hnone : finds neighbours limit seen depth a = [] := if_neg (Nat.not_lt.2 hlimit)
      refine .cons ?_
      simpa only [hnone, List.map_nil, List.nil_append, List.append_nil] using ih

theorem Expands.append {depth : Nat} (queue : List (Nat × α)) {order : List (Nat × α)}
    (hlimit : depth < limit)
    (h : Expands neighbours limit (fresh seen (frontier.flatMap neighbours) ++ seen)
      (queue ++ (fresh seen (frontier.flatMap neighbours)).map (depth + 1, ·)) order) :
    Expands neighbours limit seen (frontier.map (depth, ·) ++ queue)
      (frontier.map (depth, ·) ++ order) := by
  induction frontier generalizing seen queue with
  | nil => simpa using h
  | cons a rest ih =>
      have hfinds : finds neighbours limit seen depth a = fresh seen (neighbours a) :=
        if_pos hlimit
      rw [List.map_cons, List.cons_append, List.cons_append]
      refine .cons ?_
      rw [hfinds, List.append_assoc]
      apply ih
      rw [List.flatMap_cons, fresh_append, List.map_append, ← List.append_assoc] at h
      exact h.congr fun b => by simp only [List.mem_append]; tauto

theorem IsLayer.exists_expands (h : IsLayer neighbours start k seen frontier) (limit : Nat) :
    ∃ order, Expands neighbours limit seen (frontier.map (k + 1, ·)) order ∧
      order.map Prod.snd = rounds neighbours (limit - (k + 1)) seen frontier ∧
      order.Pairwise (fun x y => x.1 ≤ y.1) ∧
      ∀ depth a, (depth, a) ∈ order ↔ ∃ d, depth = d + 1 ∧ k ≤ d ∧ d < max limit (k + 1) ∧
        IsDistance (fun a b => b ∈ neighbours a) start a d := by
  induction hn : limit - (k + 1) generalizing k seen frontier with
  | zero =>
      have hlimit : limit ≤ k + 1 := by omega
      refine ⟨_, expands_of_limit_le hlimit seen frontier, by simp,
        pairwise_map_depth (k + 1) frontier, fun depth a => ?_⟩
      rw [h.mem_map_iff, Nat.max_eq_right hlimit]
      constructor
      · rintro ⟨rfl, hdistance⟩
        exact ⟨k, rfl, Nat.le_refl k, Nat.lt_succ_self k, hdistance⟩
      · rintro ⟨d, rfl, hkd, hdk, hdistance⟩
        obtain rfl : d = k := by omega
        exact ⟨rfl, hdistance⟩
  | succ n ih =>
      have hlimit : k + 1 < limit := by omega
      obtain ⟨order, hexpands, hplaces, hsorted, hmem⟩ := ih h.next (by omega)
      have hqueue := Expands.append [] hlimit (by simpa using hexpands)
      refine ⟨_, by simpa using hqueue, ?_, ?_, fun depth a => ?_⟩
      · rw [List.map_append, hplaces, rounds_succ, List.map_map]
        exact congrArg (· ++ _) (List.map_id _)
      · refine List.pairwise_append.2 ⟨pairwise_map_depth (k + 1) frontier, hsorted, ?_⟩
        rintro ⟨_, a⟩ ha ⟨depth, b⟩ hb
        obtain ⟨rfl, -⟩ := (h.mem_map_iff _ _).1 ha
        obtain ⟨d, rfl, hkd, -⟩ := (hmem _ _).1 hb
        exact Nat.le_succ_of_le hkd
      · rw [List.mem_append, h.mem_map_iff, hmem, Nat.max_eq_left (Nat.le_of_lt hlimit),
          Nat.max_eq_left hlimit]
        constructor
        · rintro (⟨rfl, hdistance⟩ | ⟨d, rfl, hkd, hd, hdistance⟩)
          · exact ⟨k, rfl, Nat.le_refl k, by omega, hdistance⟩
          · exact ⟨d, rfl, by omega, hd, hdistance⟩
        · rintro ⟨d, rfl, hkd, hd, hdistance⟩
          rcases Nat.eq_or_lt_of_le hkd with rfl | hlt
          · exact .inl ⟨rfl, hdistance⟩
          · exact .inr ⟨d, rfl, hlt, hd, hdistance⟩

/-- A search within a limit runs to its end. It visits each place that is nearer than the
limit, at a depth of one more than its distance and in the order of the depths. -/
theorem exists_expands_within (neighbours : α → List α) (start : α) (limit : Nat) :
    ∃ order, Expands neighbours limit [start] [(1, start)] order ∧
      order.map Prod.snd = within neighbours (limit - 1) start ∧
      order.Pairwise (fun x y => x.1 ≤ y.1) ∧
      ∀ depth a, (depth, a) ∈ order ↔ ∃ d < max limit 1, depth = d + 1 ∧
        IsDistance (fun a b => b ∈ neighbours a) start a d := by
  obtain ⟨order, hexpands, hplaces, hsorted, hmem⟩ :=
    (isLayer_start neighbours start).exists_expands limit
  refine ⟨order, hexpands, hplaces, hsorted, fun depth a => ?_⟩
  simp only [hmem, Nat.zero_le, true_and, Nat.zero_add]
  exact exists_congr fun d => and_left_comm

theorem nodup_within (neighbours : α → List α) (n : Nat) (start : α) :
    (within neighbours n start).Nodup :=
  nodup_rounds (by simp) (List.Subset.refl _)

end Search

end BisimPlay
