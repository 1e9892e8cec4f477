import BisimPlay.Hypergraph.OpenNodes
import BisimPlay.Proofs.Hypergraph.Attractor
import Mathlib.Data.Nat.Find

/-!
# What the levels say

In a closed hypergraph the level of a node is the least number of rounds within which
the attacker wins from it, and infinity when there is none. `IsExact` says so of a
ranking, in the form in which it is used: a level is at most `k` exactly when the node
is won within `k` rounds. `exists_rank?_eq_some` finds that the ranking of a closed
hypergraph exists and is exact.

The rounds are followed by `IsExactUpTo`: after round `k` the levels are exact as far
as `k`. A round that changes something wins another place, so round numbers stay below
infinity as long as there are fewer nodes than the word that stands for it, and the
ranking ends (`EndsAfter`) before the number that bounds its rounds is used up.
-/

namespace BisimPlay

namespace Level

/-- The number of a level; that of infinity is above all others. -/
def toNat (level : Level) : Nat := level.word.toNat

theorem toNat_lt (level : Level) : level.toNat < 0x100000000 := level.word.toNat_lt

@[simp] theorem toNat_infinity : infinity.toNat = 0xFFFFFFFF := rfl

theorem toNat_ofRound (k : Nat) (h : k < 0x100000000) : (ofRound k).toNat = k := by
  simpa [toNat, ofRound, UInt32.toNat_ofNat] using Nat.mod_eq_of_lt h

theorem toNat_inj {a b : Level} : a.toNat = b.toNat ↔ a = b := by
  constructor
  · intro h
    cases a
    cases b
    exact congrArg mk (UInt32.toNat_inj.1 h)
  · rintro rfl
    rfl

theorem lt_iff (a b : Level) : a < b ↔ a.toNat < b.toNat := lt_iff_toNat_lt a b

theorem toNat_lt_of_ne_infinity {level : Level} (h : level ≠ infinity) :
    level.toNat < 0xFFFFFFFF := by
  have hlt := level.toNat_lt
  have hne : level.toNat ≠ 0xFFFFFFFF := fun heq => h (toNat_inj.1 heq)
  omega

end Level

namespace Ranking

/-- The largest number of a level among the targets of a hyperedge, 0 when it has none. -/
def highest (ranking : Ranking) (edge : Hyperedge) : Nat :=
  (edge.map fun target => (ranking.level target).toNat).foldr max 0

theorem highest_le_iff {ranking : Ranking} {edge : Hyperedge} {k : Nat} :
    ranking.highest edge ≤ k ↔ ∀ target ∈ edge, (ranking.level target).toNat ≤ k := by
  induction edge with
  | nil => simp [highest]
  | cons target rest ih =>
      rw [highest, List.map_cons, List.foldr_cons, Nat.max_le, ← highest, ih,
        List.forall_mem_cons]

end Ranking

/-- A ranking is exact when its levels count the rounds within which nodes are won. -/
structure Ranking.IsExact (ranking : Ranking) (g : Hypergraph) : Prop where
  toNat_le_iff : ∀ n k, k < 0xFFFFFFFF →
    ((ranking.level n).toNat ≤ k ↔ g.IsWonWithin k n)
  eq_infinity_iff : ∀ n, ranking.level n = .infinity ↔ ∀ k, ¬ g.IsWonWithin k n

namespace Ranking.IsExact

variable {ranking : Ranking} {g : Hypergraph} {n : NodeId}

theorem toNat_pos (h : ranking.IsExact g) (n : NodeId) : 0 < (ranking.level n).toNat := by
  rw [Nat.pos_iff_ne_zero]
  intro hzero
  exact g.not_isWonWithin_zero n ((h.toNat_le_iff n 0 (by decide)).1 (Nat.le_of_eq hzero))

theorem index_lt (h : ranking.IsExact g) (hn : ranking.level n ≠ .infinity) :
    n.index < g.size := by
  have hfinite := Level.toNat_lt_of_ne_infinity hn
  exact ((h.toNat_le_iff n _ hfinite).1 le_rfl).index_lt

theorem exists_edge_lt (h : ranking.IsExact g) (hn : ranking.level n ≠ .infinity) :
    ∃ edge ∈ g.hyperedges n, ∀ target ∈ edge, ranking.level target < ranking.level n := by
  have hfinite := Level.toNat_lt_of_ne_infinity hn
  obtain ⟨k, hk⟩ := Nat.exists_eq_succ_of_ne_zero (Nat.ne_of_gt (h.toNat_pos n))
  have hwon := (h.toNat_le_iff n _ hfinite).1 le_rfl
  rw [hk] at hwon hfinite
  obtain ⟨edge, hedge, htargets⟩ := hwon
  refine ⟨edge, hedge, fun target ht => ?_⟩
  have hle := (h.toNat_le_iff target k (by omega)).2 (htargets target ht)
  rw [Level.lt_iff]
  omega

theorem exists_target_le (h : ranking.IsExact g) {edge : Hyperedge}
    (hedge : edge ∈ g.hyperedges n) (hn : 1 < (ranking.level n).toNat) :
    ∃ target ∈ edge, (ranking.level n).toNat ≤ (ranking.level target).toNat + 1 := by
  by_contra hnone
  push Not at hnone
  have hlt := (ranking.level n).toNat_lt
  obtain ⟨k, hk⟩ := Nat.exists_eq_add_of_lt hn
  have hwon : g.IsWonWithin (k + 1) n := by
    refine ⟨edge, hedge, fun target ht => ?_⟩
    have hlow := hnone target ht
    exact (h.toNat_le_iff target k (by omega)).1 (by omega)
  have hle := (h.toNat_le_iff n (k + 1) (by omega)).2 hwon
  omega

theorem toNat_le_highest_succ (h : ranking.IsExact g) {edge : Hyperedge}
    (hedge : edge ∈ g.hyperedges n) :
    (ranking.level n).toNat ≤ ranking.highest edge + 1 := by
  have hlt := (ranking.level n).toNat_lt
  by_cases hk : ranking.highest edge + 1 < 0xFFFFFFFF
  · refine (h.toNat_le_iff n _ hk).2 ⟨edge, hedge, fun target ht => ?_⟩
    exact (h.toNat_le_iff target _ (by omega)).1 (Ranking.highest_le_iff.1 le_rfl target ht)
  · omega

theorem exists_toNat_eq_highest_succ (h : ranking.IsExact g)
    (hn : ranking.level n ≠ .infinity) :
    ∃ edge ∈ g.hyperedges n, (ranking.level n).toNat = ranking.highest edge + 1 := by
  obtain ⟨edge, hedge, hlower⟩ := h.exists_edge_lt hn
  have hpos := h.toNat_pos n
  have hle : ranking.highest edge ≤ (ranking.level n).toNat - 1 := by
    refine Ranking.highest_le_iff.2 fun target ht => ?_
    have hlt := (Level.lt_iff _ _).1 (hlower target ht)
    omega
  have hge := h.toNat_le_highest_succ hedge
  exact ⟨edge, hedge, by omega⟩

theorem exists_target_eq_infinity (h : ranking.IsExact g)
    (hn : ranking.level n = .infinity) {edge : Hyperedge}
    (hedge : edge ∈ g.hyperedges n) : ∃ target ∈ edge, ranking.level target = .infinity := by
  obtain ⟨target, ht, hnever⟩ := g.isTrap_never_won n ((h.eq_infinity_iff n).1 hn) edge hedge
  exact ⟨target, ht, (h.eq_infinity_iff target).2 hnever⟩

end Ranking.IsExact

namespace Hypergraph

variable {g : Hypergraph} {levels : Array Level} {j k : Nat}

/-- The levels are exact as far as a round: they are those of the nodes won by then,
and infinity elsewhere. -/
structure IsExactUpTo (g : Hypergraph) (k : Nat) (levels : Array Level) : Prop where
  size_eq : levels.size = g.size
  toNat_le : ∀ (i : Nat) (level : Level), levels[i]? = some level →
    level = .infinity ∨ level.toNat ≤ k
  toNat_le_iff : ∀ (i : Nat) (level : Level), levels[i]? = some level →
    ∀ j ≤ k, level.toNat ≤ j ↔ g.IsWonWithin j (.ofIndex i)

theorem hyperedges_ofIndex (g : Hypergraph) (i : Nat) (h : i < 0x100000000) :
    g.hyperedges (.ofIndex i) = g.edges[i]?.getD [] := by
  rw [hyperedges, NodeId.index_ofIndex i h]

theorem IsExactUpTo.lt_ofRound_iff (hexact : g.IsExactUpTo k levels)
    (hk : k + 1 < 0x100000000) (target : NodeId) (htarget : target.index < g.size) :
    levels[target.index]?.getD .infinity < .ofRound (k + 1) ↔ g.IsWonWithin k target := by
  rw [← hexact.size_eq] at htarget
  have hlevel : levels[target.index]? = some levels[target.index] :=
    Array.getElem?_eq_getElem htarget
  have hiff := hexact.toNat_le_iff _ _ hlevel k le_rfl
  rw [NodeId.ofIndex_index] at hiff
  rw [hlevel, Option.getD_some, Level.lt_iff, Level.toNat_ofRound _ hk, ← hiff]
  exact Nat.lt_succ_iff

theorem IsExactUpTo.judge?_eq (hexact : g.IsExactUpTo k levels) (hclosed : g.IsClosed)
    (hk : k + 1 < 0x100000000) (i : Nat) (hi : i < 0x100000000) :
    ∃ won, g.judge? levels (.ofRound (k + 1)) i = some won ∧
      (won = true ↔ g.IsWonWithin (k + 1) (.ofIndex i)) := by
  have hedges := g.hyperedges_ofIndex i hi
  have htargets : ∀ edge ∈ g.edges[i]?.getD [], ∀ target ∈ edge,
      target.index < g.size := by
    intro edge hedge target ht
    rw [← hedges] at hedge
    exact hclosed.index_lt hedge ht
  refine ⟨_, someBelow?_of_forall levels _ _ (by rwa [hexact.size_eq]), ?_⟩
  rw [isWonWithin_succ, hedges]
  simp only [List.any_eq_true, List.all_eq_true, decide_eq_true_eq]
  constructor
  · rintro ⟨edge, hedge, hbelow⟩
    refine ⟨edge, hedge, fun target ht => ?_⟩
    exact (hexact.lt_ofRound_iff hk target (htargets edge hedge target ht)).1
      (hbelow target ht)
  · rintro ⟨edge, hedge, hwon⟩
    refine ⟨edge, hedge, fun target ht => ?_⟩
    exact (hexact.lt_ofRound_iff hk target (htargets edge hedge target ht)).2
      (hwon target ht)

/-- In a closed hypergraph every round is carried out, and afterwards the nodes that
were open and are won now have the level of the round. -/
theorem IsExactUpTo.exists_round? (hexact : g.IsExactUpTo k levels)
    (hclosed : g.IsClosed) (hsize : g.size < 0x100000000) (hk : k + 1 < 0x100000000) :
    ∃ next, g.round? levels (.ofRound (k + 1)) = some next ∧ next.size = g.size ∧
      ∀ i : Nat, next[i]? =
        if levels[i]? = some .infinity ∧
            g.judge? levels (.ofRound (k + 1)) i = some true
        then some (.ofRound (k + 1)) else levels[i]? := by
  cases hround : g.round? levels (.ofRound (k + 1)) with
  | none =>
      obtain ⟨i, hi, hjudge⟩ := (g.round?_eq_none_iff _ _ hexact.size_eq).1 hround
      have hlt := (Array.getElem?_eq_some_iff.1 hi).1
      rw [hexact.size_eq] at hlt
      obtain ⟨won, hwon, _⟩ := hexact.judge?_eq hclosed hk i (by omega)
      rw [hwon] at hjudge
      exact absurd hjudge (by simp)
  | some next =>
      refine ⟨next, rfl, ?_, g.getElem?_of_round?_eq_some _ _ _ hexact.size_eq hround⟩
      rw [g.size_of_round?_eq_some _ _ _ hexact.size_eq hround, hexact.size_eq]

theorem IsExactUpTo.level_cases (hexact : g.IsExactUpTo k levels) (hclosed : g.IsClosed)
    (hsize : g.size < 0x100000000) (hk : k + 1 < 0x100000000) {i : Nat} {level : Level}
    (hlevel : (if levels[i]? = some .infinity ∧
        g.judge? levels (.ofRound (k + 1)) i = some true
      then some (.ofRound (k + 1)) else levels[i]?) = some level) :
    (level = .ofRound (k + 1) ∧ levels[i]? = some .infinity ∧
      g.IsWonWithin (k + 1) (.ofIndex i)) ∨
    (levels[i]? = some level ∧
      (level = .infinity → ¬ g.IsWonWithin (k + 1) (.ofIndex i))) := by
  have hjudge (hopen : levels[i]? = some .infinity) :
      ∃ won, g.judge? levels (.ofRound (k + 1)) i = some won ∧
        (won = true ↔ g.IsWonWithin (k + 1) (.ofIndex i)) := by
    have hi := (Array.getElem?_eq_some_iff.1 hopen).1
    rw [hexact.size_eq] at hi
    exact hexact.judge?_eq hclosed hk i (by omega)
  split at hlevel
  · next hwon =>
      obtain ⟨won, heq, hiff⟩ := hjudge hwon.1
      rw [heq, Option.some_inj] at hwon
      exact .inl ⟨(Option.some_inj.1 hlevel).symm, hwon.1, hiff.1 hwon.2⟩
  · next hnot =>
      refine .inr ⟨hlevel, ?_⟩
      rintro rfl hwon
      obtain ⟨won, heq, hiff⟩ := hjudge hlevel
      exact hnot ⟨hlevel, by rw [heq, hiff.2 hwon]⟩

theorem IsExactUpTo.round?_of_isStableAt (hexact : g.IsExactUpTo k levels)
    (hclosed : g.IsClosed) (hsize : g.size < 0xFFFFFFFF) (hk : k ≤ g.size)
    (hstable : g.IsStableAt k) : g.round? levels (.ofRound (k + 1)) = some levels := by
  obtain ⟨next, hround, hnextsize, hnext⟩ :=
    hexact.exists_round? hclosed (by omega) (by omega)
  suffices hsame : next = levels by rw [hround, hsame]
  apply Array.ext_getElem?
  intro i
  cases hlevel : next[i]? with
  | none =>
      rw [Array.getElem?_eq_none_iff, hnextsize, ← hexact.size_eq] at hlevel
      exact (Array.getElem?_eq_none hlevel).symm
  | some level =>
      rw [hnext] at hlevel
      rcases hexact.level_cases hclosed (by omega) (by omega) hlevel with
        ⟨_, hopen, hwon⟩ | ⟨hold, _⟩
      · have hle := (hexact.toNat_le_iff i _ hopen k le_rfl).2 (hstable _ hwon)
        rw [Level.toNat_infinity] at hle
        omega
      · exact hold.symm

theorem IsExactUpTo.succ (hexact : g.IsExactUpTo k levels) (hclosed : g.IsClosed)
    (hsize : g.size < 0xFFFFFFFF) (hk : k + 1 < 0xFFFFFFFF) :
    ∃ next, g.round? levels (.ofRound (k + 1)) = some next ∧
      g.IsExactUpTo (k + 1) next := by
  obtain ⟨next, hround, hnextsize, hnext⟩ :=
    hexact.exists_round? hclosed (by omega) (by omega)
  have hnumber : (Level.ofRound (k + 1)).toNat = k + 1 := Level.toNat_ofRound _ (by omega)
  have hinfinity := Level.toNat_infinity
  refine ⟨next, hround, hnextsize, ?_, ?_⟩
  · intro i level hlevel
    rw [hnext] at hlevel
    rcases hexact.level_cases hclosed (by omega) (by omega) hlevel with
      ⟨rfl, _⟩ | ⟨hold, _⟩
    · exact .inr (le_of_eq hnumber)
    · rcases hexact.toNat_le i level hold with hinf | hle
      · exact .inl hinf
      · exact .inr (by omega)
  · intro i level hlevel j hj
    rw [hnext] at hlevel
    rcases hexact.level_cases hclosed (by omega) (by omega) hlevel with
      ⟨rfl, hopen, hwon⟩ | ⟨hold, hunwon⟩
    · rw [hnumber]
      constructor
      · intro hle
        obtain rfl : j = k + 1 := by omega
        exact hwon
      · intro hj'
        by_contra hlt
        have hle := (hexact.toNat_le_iff i _ hopen j (by omega)).2 hj'
        omega
    · by_cases hjk : j ≤ k
      · exact hexact.toNat_le_iff i level hold j hjk
      · obtain rfl : j = k + 1 := by omega
        rcases hexact.toNat_le i level hold with rfl | hle
        · constructor
          · intro hle
            omega
          · intro hwon
            exact absurd hwon (hunwon rfl)
        · have hwon := (hexact.toNat_le_iff i level hold k le_rfl).1 hle
          exact ⟨fun _ => hwon.succ, fun _ => by omega⟩

theorem isExactUpTo_zero (g : Hypergraph) :
    g.IsExactUpTo 0 (Array.replicate g.size .infinity) := by
  have hinfinity := Level.toNat_infinity
  refine ⟨by simp, ?_, ?_⟩
  · intro i level hlevel
    rw [Array.getElem?_replicate] at hlevel
    split at hlevel
    · exact .inl (Option.some_inj.1 hlevel).symm
    · exact absurd hlevel (by simp)
  · intro i level hlevel j hj
    rw [Array.getElem?_replicate] at hlevel
    split at hlevel
    · obtain rfl := Option.some_inj.1 hlevel
      obtain rfl : j = 0 := by omega
      constructor
      · intro hle
        omega
      · intro hwon
        exact absurd hwon (g.not_isWonWithin_zero _)
    · exact absurd hlevel (by simp)

theorem IsExactUpTo.isStableAt (hexact : g.IsExactUpTo k levels)
    (hnext : g.IsExactUpTo (k + 1) levels) (hk : k + 1 < 0xFFFFFFFF) :
    g.IsStableAt k := by
  intro n hwon
  have hn := hwon.index_lt
  rw [← hexact.size_eq] at hn
  have hlevel := Array.getElem?_eq_getElem hn
  rw [← NodeId.ofIndex_index n, ← hnext.toNat_le_iff _ _ hlevel _ le_rfl] at hwon
  rw [← NodeId.ofIndex_index n, ← hexact.toNat_le_iff _ _ hlevel _ le_rfl]
  rcases hexact.toNat_le _ _ hlevel with hinf | hle
  · rw [hinf, Level.toNat_infinity] at hwon ⊢
    omega
  · exact hle

def levelsAfter? (g : Hypergraph) : Nat → Option (Array Level)
  | 0 => some (Array.replicate g.size .infinity)
  | k + 1 => (g.levelsAfter? k).bind fun levels => g.round? levels (.ofRound (k + 1))

theorem levelsAfter?_succ (h : g.levelsAfter? k = some levels) :
    g.levelsAfter? (k + 1) = g.round? levels (.ofRound (k + 1)) := by
  rw [levelsAfter?, h, Option.bind_some]

theorem exists_levelsAfter?_of_le (h : g.levelsAfter? k = some levels) (hjk : j ≤ k) :
    ∃ before, g.levelsAfter? j = some before := by
  induction hjk generalizing levels with
  | refl => exact ⟨levels, h⟩
  | step _ ih =>
      obtain ⟨before, hbefore, _⟩ := Option.bind_eq_some_iff.1 h
      exact ih hbefore

/-- A ranking ends after `k` rounds when each of them changes a level and the round that
follows, which is the last to be carried out, changes none. -/
structure EndsAfter (g : Hypergraph) (k : Nat) (ranking : Ranking) : Prop where
  changes : ∀ j < k, g.levelsAfter? (j + 1) ≠ g.levelsAfter? j
  levels_eq : g.levelsAfter? k = some ranking.levels
  unchanged : g.levelsAfter? (k + 1) = some ranking.levels

theorem exists_rounds?_eq {last : Array Level} {n : Nat}
    (hchanges : ∀ i < k, g.levelsAfter? (i + 1) ≠ g.levelsAfter? i) (hjk : j ≤ k)
    (hn : k < n + j) (hlevels : g.levelsAfter? j = some levels)
    (hlast : g.levelsAfter? k = some last) :
    ∃ m, g.rounds? n (j + 1) levels = g.rounds? (m + 1) (k + 1) last := by
  induction n generalizing j levels with
  | zero => omega
  | succ n ih =>
      rcases hjk.lt_or_eq with hlt | rfl
      · have hround := levelsAfter?_succ hlevels
        obtain ⟨next, hnext⟩ := exists_levelsAfter?_of_le hlast hlt
        have hchange : next ≠ levels := by
          rintro rfl
          exact hchanges j hlt (hnext.trans hlevels.symm)
        simpa [rounds?, ← hround, hnext, hchange] using ih hlt (by omega) hnext
      · obtain rfl := Option.some.inj (hlevels.symm.trans hlast)
        exact ⟨n, rfl⟩

theorem EndsAfter.rounds?_eq {ranking : Ranking} {n : Nat} (h : g.EndsAfter k ranking)
    (hjk : j ≤ k) (hn : k < n + j) (hlevels : g.levelsAfter? j = some levels) :
    g.rounds? n (j + 1) levels = some ranking.levels := by
  obtain ⟨m, hrounds⟩ := exists_rounds?_eq h.changes hjk hn hlevels h.levels_eq
  have hround := (levelsAfter?_succ h.levels_eq).symm.trans h.unchanged
  simp [hrounds, rounds?, hround]

theorem EndsAfter.rank?_eq {ranking : Ranking} (h : g.EndsAfter k ranking)
    (hk : k ≤ g.size) : g.rank? = some ranking := by
  rw [rank?, h.rounds?_eq (Nat.zero_le k) (by omega) rfl, Option.map_some]

theorem exists_levelsAfter? (hclosed : g.IsClosed) (hsize : g.size < 0xFFFFFFFF)
    (hk : k ≤ g.size) :
    ∃ levels, g.levelsAfter? k = some levels ∧ g.IsExactUpTo k levels := by
  induction k with
  | zero => exact ⟨_, rfl, g.isExactUpTo_zero⟩
  | succ k ih =>
      obtain ⟨levels, hlevels, hexact⟩ := ih (by omega)
      obtain ⟨next, hround, hnext⟩ := hexact.succ hclosed hsize (by omega)
      exact ⟨next, (levelsAfter?_succ hlevels).trans hround, hnext⟩

theorem EndsAfter.toNat_level_le {ranking : Ranking} {n : NodeId}
    (hends : g.EndsAfter k ranking) (hclosed : g.IsClosed) (hsize : g.size < 0xFFFFFFFF)
    (hk : k ≤ g.size) (hn : ranking.level n ≠ .infinity) :
    (ranking.level n).toNat ≤ k := by
  obtain ⟨levels, hlevels, hexact⟩ := exists_levelsAfter? hclosed hsize hk
  obtain rfl := Option.some.inj (hlevels.symm.trans hends.levels_eq)
  have hindex : n.index < ranking.levels.size := by
    by_contra hmissing
    exact hn (ranking.level_of_size_le n (Nat.le_of_not_lt hmissing))
  refine (hexact.toNat_le n.index _ ?_).resolve_left hn
  simp [Ranking.level, hindex]

theorem IsExactUpTo.toNat_level_le_iff (hexact : g.IsExactUpTo k levels)
    (hstable : g.IsStableAt k) (n : NodeId) (hj : j < 0xFFFFFFFF) :
    ((Ranking.mk levels).level n).toNat ≤ j ↔ g.IsWonWithin j n := by
  have hinfinity := Level.toNat_infinity
  by_cases hn : n.index < levels.size
  · have hlevel : levels[n.index]? = some ((Ranking.mk levels).level n) := by
      simp [Ranking.level, hn]
    have hiff := hexact.toNat_le_iff _ _ hlevel
    rw [NodeId.ofIndex_index] at hiff
    by_cases hjk : j ≤ k
    · exact hiff j hjk
    · rw [show g.IsWonWithin j n ↔ g.IsWonWithin k n from
        ⟨hstable.isWonWithin, fun h => h.mono (by omega)⟩, ← hiff k le_rfl]
      rcases hexact.toNat_le _ _ hlevel with hinf | hlast
      · rw [hinf]
        omega
      · omega
  · have hlevel := Ranking.level_of_size_le ⟨levels⟩ n (Nat.le_of_not_lt hn)
    have hlost : ¬ g.IsWonWithin j n := by
      intro hwon
      have hlt := hwon.index_lt
      rw [← hexact.size_eq] at hlt
      exact hn hlt
    rw [hlevel, iff_false_right hlost]
    omega

theorem IsExactUpTo.isExact (hexact : g.IsExactUpTo k levels)
    (hsize : g.size < 0xFFFFFFFF) (hstable : g.IsStableAt k) :
    (Ranking.mk levels).IsExact g := by
  have hinfinity := Level.toNat_infinity
  refine ⟨fun n j => hexact.toNat_level_le_iff hstable n, fun n => ?_⟩
  constructor
  · intro hlevel j hwon
    have hwithin := (hexact.toNat_level_le_iff hstable n hsize).2 hwon.size
    rw [hlevel] at hwithin
    omega
  · intro hnever
    by_contra hfinite
    have hlt := Level.toNat_lt_of_ne_infinity hfinite
    exact hnever _ ((hexact.toNat_level_le_iff hstable n hlt).1 le_rfl)

/-- The ranking of a closed hypergraph ends, with exact levels, in the first round after
which the won nodes no longer grow. -/
theorem exists_endsAfter (hclosed : g.IsClosed) (hsize : g.size < 0xFFFFFFFF) :
    ∃ k ranking, k ≤ (g.wonPlaces k).card ∧ g.EndsAfter k ranking ∧
      ranking.IsExact g := by
  classical
  have hstops : ∃ k, g.IsStableAt k := g.exists_isStableAt.imp fun _ h => h.2
  have hstable := Nat.find_spec hstops
  set last := Nat.find hstops
  have hcard : last ≤ (g.wonPlaces last).card :=
    le_card_wonPlaces fun j hj => Nat.find_min hstops hj
  have hlast : last ≤ g.size := hcard.trans (g.card_wonPlaces_le last)
  obtain ⟨final, hfinal, hexact⟩ := exists_levelsAfter? hclosed hsize hlast
  have hround := hexact.round?_of_isStableAt hclosed hsize hlast hstable
  refine ⟨last, ⟨final⟩, hcard, ⟨fun j hj hsame => ?_, hfinal,
    (levelsAfter?_succ hfinal).trans hround⟩, hexact.isExact hsize hstable⟩
  obtain ⟨levels, hlevels, hbefore⟩ := exists_levelsAfter? hclosed hsize (k := j) (by omega)
  obtain ⟨next, hnext, hafter⟩ := exists_levelsAfter? hclosed hsize (k := j + 1) (by omega)
  obtain rfl := Option.some.inj (hnext.symm.trans (hsame.trans hlevels))
  exact Nat.find_min hstops hj (hbefore.isStableAt hafter (by omega))

/-- A closed hypergraph has an exact ranking, as long as its nodes are fewer than the
word that stands for infinity. -/
theorem exists_rank?_eq_some (hclosed : g.IsClosed) (hsize : g.size < 0xFFFFFFFF) :
    ∃ ranking, g.rank? = some ranking ∧ ranking.IsExact g := by
  obtain ⟨k, ranking, hcard, hends, hexact⟩ := exists_endsAfter hclosed hsize
  exact ⟨ranking, hends.rank?_eq (hcard.trans (g.card_wonPlaces_le k)), hexact⟩

end Hypergraph

end BisimPlay
