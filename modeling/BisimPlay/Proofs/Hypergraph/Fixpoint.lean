import BisimPlay.Proofs.Hypergraph.Levels
import Mathlib.Order.Bounds.Basic
import Mathlib.Order.Interval.Finset.Nat

/-!
# The ranking as a least fixpoint

A node is attracted in `k + 1` rounds when some hyperedge of it has only targets that are
attracted in `k` rounds, and in no rounds no node is. The ranking of a closed hypergraph is
this iteration carried out: the level of a node is the least number of rounds in which it is
attracted, and the nodes without such a number are the largest trap.

It takes one round more than change a level, so one more than there are nodes at most. Each
round that changes a level gives its number to a node, and these numbers are below the one that
stands for infinity. The number of the last round, which changes nothing, comes up to it in one
case: there are as many nodes as can be, and each is won in a round of its own, as the nodes of a
`chain` are.
-/

namespace BisimPlay

variable {ranking : Ranking} {g : Hypergraph} {n : NodeId} {k : Nat}

namespace Ranking.IsExact

theorem isLeast_isWonWithin (h : ranking.IsExact g) (hn : ranking.level n ≠ .infinity) :
    IsLeast {k | g.IsWonWithin k n} (ranking.level n).toNat := by
  have hfinite := Level.toNat_lt_of_ne_infinity hn
  refine ⟨(h.toNat_le_iff n _ hfinite).1 le_rfl, fun k hk => ?_⟩
  by_cases hlt : k < 0xFFFFFFFF
  · exact (h.toNat_le_iff n k hlt).2 hk
  · omega

theorem isLeast_highest_succ (h : ranking.IsExact g) (hn : ranking.level n ≠ .infinity) :
    IsLeast {k | ∃ edge ∈ g.hyperedges n, k = ranking.highest edge + 1}
      (ranking.level n).toNat := by
  refine ⟨h.exists_toNat_eq_highest_succ hn, ?_⟩
  rintro _ ⟨edge, hedge, rfl⟩
  exact h.toNat_le_highest_succ hedge

theorem isGreatest_isTrap (h : ranking.IsExact g) (hclosed : g.IsClosed) :
    IsGreatest {s : Set NodeId | (∀ n ∈ s, n.index < g.size) ∧ g.IsTrap (· ∈ s)}
      {n | n.index < g.size ∧ ranking.marking n = .zero} := by
  refine ⟨⟨fun n hn => hn.1, fun n hn edge hedge => ?_⟩, fun s hs n hn => ?_⟩
  · obtain ⟨target, ht, hinfinity⟩ :=
      h.exists_target_eq_infinity ((ranking.marking_eq_zero_iff n).1 hn.2) hedge
    exact ⟨target, ht, hclosed.index_lt hedge ht,
      (ranking.marking_eq_zero_iff target).2 hinfinity⟩
  · refine ⟨hs.1 n hn, (ranking.marking_eq_zero_iff n).2 ?_⟩
    exact (h.eq_infinity_iff n).2 fun k => hs.2.not_isWonWithin hn k

end Ranking.IsExact

namespace Hypergraph

namespace EndsAfter

variable {j : Nat}

theorem exists_toNat_level_eq (h : g.EndsAfter k ranking) (hexact : ranking.IsExact g)
    (hclosed : g.IsClosed) (hsize : g.size < 0xFFFFFFFF) (hk : k ≤ g.size) (hj : j < k) :
    ∃ i < g.size, (ranking.level (.ofIndex i)).toNat = j + 1 := by
  obtain ⟨levels, hlevels, hbefore⟩ := exists_levelsAfter? hclosed hsize (k := j) (by omega)
  have hgrows : ¬ g.IsStableAt j := fun hstable => h.changes j hj <| by
    rw [levelsAfter?_succ hlevels, hlevels]
    exact hbefore.round?_of_isStableAt hclosed hsize (by omega) hstable
  simp only [IsStableAt, not_forall] at hgrows
  obtain ⟨n, hwon, hnew⟩ := hgrows
  rw [← hexact.toNat_le_iff n _ (by omega)] at hwon hnew
  refine ⟨n.index, ?_, by rw [NodeId.ofIndex_index]; omega⟩
  refine hexact.index_lt fun hinfinity => ?_
  rw [hinfinity, Level.toNat_infinity] at hwon
  omega

end EndsAfter

/-- Every node is won, and no two of them in the same round. -/
structure WinsOneByOne (g : Hypergraph) (ranking : Ranking) : Prop where
  ne_infinity : ∀ n, n.index < g.size → ranking.level n ≠ .infinity
  level_inj : ∀ m n, m.index < g.size → n.index < g.size →
    ranking.level m = ranking.level n → m = n

/-- After as many rounds as there are nodes, every node is the one to which some round gave its
number. -/
theorem EndsAfter.exists_place (h : g.EndsAfter g.size ranking) (hexact : ranking.IsExact g)
    (hclosed : g.IsClosed) (hsize : g.size < 0xFFFFFFFF) :
    ∃ place : Nat → Nat, ∀ n : NodeId, n.index < g.size →
      ∃ j < g.size, place j = n.index ∧ (ranking.level n).toNat = j + 1 := by
  choose! place hlt hplace using fun j hj =>
    h.exists_toNat_level_eq hexact hclosed hsize le_rfl (j := j) hj
  have hinj : Set.InjOn place (Finset.range g.size) := by
    intro i hi j hj heq
    have hi' := hplace i (by simpa using hi)
    have hj' := hplace j (by simpa using hj)
    rw [heq] at hi'
    omega
  refine ⟨place, fun n hn => ?_⟩
  obtain ⟨j, hj, hn⟩ := Finset.surjOn_of_injOn_of_card_le place
    (fun j hj => by simpa using hlt j (by simpa using hj)) hinj le_rfl
    (show n.index ∈ _ by simpa using hn)
  rw [Finset.coe_range, Set.mem_Iio] at hj
  have hlevel := hplace j hj
  rw [hn, NodeId.ofIndex_index] at hlevel
  exact ⟨j, hj, hn, hlevel⟩

theorem EndsAfter.winsOneByOne (h : g.EndsAfter g.size ranking) (hexact : ranking.IsExact g)
    (hclosed : g.IsClosed) (hsize : g.size < 0xFFFFFFFF) : g.WinsOneByOne ranking := by
  obtain ⟨place, hplace⟩ := h.exists_place hexact hclosed hsize
  refine ⟨fun n hn hinfinity => ?_, fun m n hm hn heq => ?_⟩
  · obtain ⟨j, hj, -, hlevel⟩ := hplace n hn
    rw [hinfinity, Level.toNat_infinity] at hlevel
    omega
  · obtain ⟨i, -, hmi, hilevel⟩ := hplace m hm
    obtain ⟨j, -, hnj, hjlevel⟩ := hplace n hn
    rw [heq, hjlevel, Nat.add_right_cancel_iff] at hilevel
    rw [← NodeId.index_inj, ← hmi, ← hnj, hilevel]

theorem WinsOneByOne.size_le (hone : g.WinsOneByOne ranking) (h : g.EndsAfter k ranking)
    (hexact : ranking.IsExact g) (hclosed : g.IsClosed) (hsize : g.size < 0xFFFFFFFF)
    (hk : k ≤ g.size) : g.size ≤ k := by
  have hindex {i : Nat} (hi : i < g.size) : (NodeId.ofIndex i).index = i :=
    NodeId.index_ofIndex i (by omega)
  have hcard := Finset.card_le_card_of_injOn (s := Finset.range g.size) (t := Finset.Icc 1 k)
    (fun i => (ranking.level (.ofIndex i)).toNat) (fun i hi => ?maps) (fun i hi j hj heq => ?inj)
  · simpa using hcard
  case maps =>
    rw [Finset.coe_range, Set.mem_Iio] at hi
    have hfinite := hone.ne_infinity (.ofIndex i) (by rwa [hindex hi])
    simpa using ⟨hexact.toNat_pos _, h.toNat_level_le hclosed hsize hk hfinite⟩
  case inj =>
    rw [Finset.coe_range, Set.mem_Iio] at hi hj
    have hsame := hone.level_inj (.ofIndex i) (.ofIndex j) (by rwa [hindex hi])
      (by rwa [hindex hj]) (Level.toNat_inj.1 heq)
    rw [← hindex hi, ← hindex hj, hsame]

/-- There is a round for every one of the nodes just when each is won in one of its own. -/
theorem EndsAfter.eq_size_iff (h : g.EndsAfter k ranking) (hexact : ranking.IsExact g)
    (hclosed : g.IsClosed) (hsize : g.size < 0xFFFFFFFF) (hk : k ≤ g.size) :
    k = g.size ↔ g.WinsOneByOne ranking := by
  constructor
  · rintro rfl
    exact h.winsOneByOne hexact hclosed hsize
  · exact fun hone => Nat.le_antisymm hk (hone.size_le h hexact hclosed hsize hk)

/-- A chain: node 0 is won at once, every other node after the one before it. -/
def chain (n : Nat) : Hypergraph :=
  ⟨(Array.range n).map fun i => if i = 0 then [[]] else [[.ofIndex (i - 1)]]⟩

@[simp] theorem size_chain (n : Nat) : (chain n).size = n := by
  simp [chain, size]

theorem hyperedges_chain {i n : Nat} (hi : i < n) (hn : n ≤ 0x100000000) :
    (chain n).hyperedges (.ofIndex i) = if i = 0 then [[]] else [[.ofIndex (i - 1)]] := by
  rw [hyperedges_ofIndex _ i (by omega)]
  simp [chain, hi]

theorem isWonWithin_chain_iff {i j n : Nat} (hi : i < n) (hn : n ≤ 0x100000000) :
    (chain n).IsWonWithin j (.ofIndex i) ↔ i < j := by
  induction j generalizing i with
  | zero => simp
  | succ j ih =>
      rw [isWonWithin_succ, hyperedges_chain hi hn]
      by_cases hzero : i = 0
      · simp [hzero]
      · have hbefore := ih (i := i - 1) (by omega)
        simp only [if_neg hzero, List.mem_singleton, exists_eq_left, forall_eq, hbefore]
        omega

theorem isClosed_chain {n : Nat} (hn : n ≤ 0x100000000) : (chain n).IsClosed := by
  intro edges hedges edge hedge target htarget
  obtain ⟨i, hi, rfl⟩ := Array.mem_map.1 hedges
  rw [Array.mem_range] at hi
  split at hedge
  · obtain rfl := List.mem_singleton.1 hedge
    exact absurd htarget List.not_mem_nil
  · obtain rfl := List.mem_singleton.1 hedge
    obtain rfl := List.mem_singleton.1 htarget
    rw [NodeId.index_ofIndex _ (by omega), size_chain]
    omega

theorem toNat_level_chain {n : Nat} (hexact : ranking.IsExact (chain n)) (hn : n < 0xFFFFFFFF)
    {m : NodeId} (hm : m.index < n) : (ranking.level m).toNat = m.index + 1 := by
  have hwon (j : Nat) := isWonWithin_chain_iff (j := j) hm (by omega)
  rw [NodeId.ofIndex_index] at hwon
  have hat := (hexact.toNat_le_iff m (m.index + 1) (by omega)).2 ((hwon _).2 (by omega))
  have hbefore := mt (hexact.toNat_le_iff m m.index (by omega)).1 (mt (hwon _).1 (by omega))
  omega

theorem winsOneByOne_chain {n : Nat} (hexact : ranking.IsExact (chain n))
    (hn : n < 0xFFFFFFFF) : (chain n).WinsOneByOne ranking := by
  refine ⟨fun m hm hinfinity => ?_, fun l m hl hm heq => ?_⟩
  · rw [size_chain] at hm
    have hfinite := toNat_level_chain hexact hn hm
    rw [hinfinity, Level.toNat_infinity] at hfinite
    omega
  · rw [size_chain] at hl hm
    have hsame := toNat_level_chain hexact hn hl
    rw [heq, toNat_level_chain hexact hn hm, Nat.add_right_cancel_iff] at hsame
    exact (NodeId.index_inj.1 hsame).symm

theorem exists_endsAfter_chain {n : Nat} (hn : n < 0xFFFFFFFF) :
    ∃ ranking, (chain n).rankByOpen? = some ranking ∧ (chain n).EndsAfter n ranking := by
  have hclosed : (chain n).IsClosed := isClosed_chain (by omega)
  have hsize : (chain n).size < 0xFFFFFFFF := by rwa [size_chain]
  obtain ⟨k, ranking, hcard, hends, hexact⟩ := exists_endsAfter hclosed hsize
  have hk : k ≤ (chain n).size := hcard.trans ((chain n).card_wonPlaces_le k)
  have hone := winsOneByOne_chain hexact hn
  obtain rfl : k = n := ((hends.eq_size_iff hexact hclosed hsize hk).2 hone).trans (size_chain n)
  exact ⟨ranking, (rankByOpen?_eq _).trans (hends.rank?_eq hk), hends⟩

theorem EndsAfter.eq {j : Nat} {other : Ranking} (h : g.EndsAfter j other)
    (hends : g.EndsAfter k ranking) : j = k := by
  rcases Nat.lt_trichotomy j k with hlt | heq | hlt
  · exact absurd (h.unchanged.trans h.levels_eq.symm) (hends.changes j hlt)
  · exact heq
  · exact absurd (hends.unchanged.trans hends.levels_eq.symm) (h.changes k hlt)

/-- The ranking of a closed hypergraph is a least fixpoint with its ranks. After as many
rounds as change a level, at most one for each node, one round more finds nothing to change
and ends it. Rounds that change a level have numbers below infinity, and so has the last one,
but for one case: the nodes are as many as can be and each is won in a round of its own.
A finite level is the least number of rounds within which its node is won, hence one more
than the least, over the hyperedges, of the highest level of a target. The level is infinity
when the node is never won, and the nodes at infinity are the largest trap. -/
theorem rankByOpen?_counts_rounds (g : Hypergraph) (hclosed : g.IsClosed)
    (hsize : g.size < 0xFFFFFFFF) :
    ∃ k ranking, g.rankByOpen? = some ranking ∧ g.EndsAfter k ranking ∧
      k + 1 ≤ g.size + 1 ∧ k < 0xFFFFFFFF ∧
      (k + 1 = 0xFFFFFFFF ↔ g.size = 0xFFFFFFFE ∧ g.WinsOneByOne ranking) ∧
      (∀ n, ranking.level n ≠ .infinity →
        IsLeast {j | g.IsWonWithin j n} (ranking.level n).toNat ∧
        IsLeast {j | ∃ edge ∈ g.hyperedges n, j = ranking.highest edge + 1}
          (ranking.level n).toNat) ∧
      (∀ n, ranking.level n = .infinity ↔ ∀ j, ¬ g.IsWonWithin j n) ∧
      IsGreatest {s : Set NodeId | (∀ n ∈ s, n.index < g.size) ∧ g.IsTrap (· ∈ s)}
        {n | n.index < g.size ∧ ranking.marking n = .zero} := by
  obtain ⟨k, ranking, hcard, hends, hexact⟩ := exists_endsAfter hclosed hsize
  have hk : k ≤ g.size := hcard.trans (g.card_wonPlaces_le k)
  refine ⟨k, ranking, (rankByOpen?_eq g).trans (hends.rank?_eq hk), hends,
    Nat.succ_le_succ hk, Nat.lt_of_le_of_lt hk hsize, ?_, fun n hn => ?_,
    hexact.eq_infinity_iff, hexact.isGreatest_isTrap hclosed⟩
  · rw [← hends.eq_size_iff hexact hclosed hsize hk]
    omega
  · exact ⟨hexact.isLeast_isWonWithin hn, hexact.isLeast_highest_succ hn⟩

/-- Node 0 is won by either hyperedge, nodes 5 and 6 depend on each other, and node 7 has no
hyperedges at all. -/
def tangle : Hypergraph :=
  ⟨#[[[.ofIndex 1], [.ofIndex 2, .ofIndex 3]], [[.ofIndex 4]], [[]],
    [[.ofIndex 3], [.ofIndex 2, .ofIndex 2]], [[], [.ofIndex 0]], [[.ofIndex 6]],
    [[.ofIndex 5], [.ofIndex 0, .ofIndex 5]], []]⟩

theorem rankByOpen?_tangle :
    tangle.IsClosed ∧ tangle.size < 0xFFFFFFFF ∧
      ∃ k ranking, tangle.rankByOpen? = some ranking ∧ tangle.EndsAfter k ranking ∧
        IsLeast {j | tangle.IsWonWithin j .root} 3 ∧
        (∀ j, ¬ tangle.IsWonWithin j (.ofIndex 5)) ∧
        IsGreatest {s : Set NodeId | (∀ n ∈ s, n.index < 8) ∧ tangle.IsTrap (· ∈ s)}
          {n | n.index < 8 ∧ ranking.marking n = .zero} := by
  have hclosed : tangle.IsClosed := by
    unfold IsClosed
    decide +kernel
  have hsize : tangle.size < 0xFFFFFFFF := by decide
  obtain ⟨k, ranking, hranking, hends, -, -, -, hfinite, hinfinite, htrap⟩ :=
    rankByOpen?_counts_rounds tangle hclosed hsize
  have hlevels : tangle.rankByOpen? = some ⟨#[.ofRound 3, .ofRound 2, .ofRound 1, .ofRound 2,
      .ofRound 1, .infinity, .infinity, .infinity]⟩ := by
    decide +kernel
  obtain rfl := Option.some.inj (hranking.symm.trans hlevels)
  have hroot := (hfinite .root (by decide)).1
  exact ⟨hclosed, hsize, k, _, hranking, hends, hroot, (hinfinite _).1 (by decide), htrap⟩

/-- In the longest chain that can be ranked the number of the last round is that of infinity. -/
theorem chain_counts_to_infinity :
    (chain 0xFFFFFFFE).IsClosed ∧ (chain 0xFFFFFFFE).size < 0xFFFFFFFF ∧
      (∃ ranking, (chain 0xFFFFFFFE).rankByOpen? = some ranking ∧
        (chain 0xFFFFFFFE).EndsAfter 0xFFFFFFFE ranking ∧
        Level.ofRound (0xFFFFFFFE + 1) = .infinity) ∧
      ¬ ∃ k ranking, (chain 0xFFFFFFFE).EndsAfter k ranking ∧ k + 1 < 0xFFFFFFFF := by
  obtain ⟨ranking, hranking, hends⟩ := exists_endsAfter_chain (n := 0xFFFFFFFE) (by decide)
  refine ⟨isClosed_chain (by decide), by rw [size_chain]; decide,
    ⟨ranking, hranking, hends, by decide⟩, ?_⟩
  rintro ⟨k, other, hother, hlt⟩
  rw [hother.eq hends] at hlt
  exact absurd hlt (by decide)

end Hypergraph

end BisimPlay
