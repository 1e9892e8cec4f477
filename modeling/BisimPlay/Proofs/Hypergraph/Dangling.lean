import BisimPlay.Proofs.Hypergraph.Levels
import BisimPlay.Proofs.Splits

/-!
# Ranking with missing targets

A hyperedge may name a target that is no node. Such a hyperedge is never satisfied, so the
levels of a hypergraph can only be those that it has when these hyperedges are deleted
(`pruned`). But ranking looks at hyperedges and targets one by one, and when it looks at a
missing target there is no ranking.

Whether that happens is read off the levels of the pruned hypergraph: a node comes upon the
missing target in the round after the last target before it was won, unless the node has been
won by then, or an earlier hyperedge is satisfied in that round (`ComesUpon`).

Up to the round in which it fails, ranking agrees with that of the pruned hypergraph round by
round (`levelsAfter?_pruned`).
-/

namespace BisimPlay

namespace Hypergraph

variable {g : Hypergraph} {ranking : Ranking} {levels next : Array Level} {bound : Level}
  {edge : Hyperedge} {edges : List Hyperedge} {n : NodeId} {i j k : Nat}

def liesWithin (size : Nat) (edge : Hyperedge) : Bool :=
  edge.all fun target => target.index < size

/-- The hypergraph without the hyperedges that hold a missing target. -/
def pruned (g : Hypergraph) : Hypergraph :=
  ⟨g.edges.map fun edges => edges.filter (liesWithin g.size)⟩

theorem liesWithin_iff {size : Nat} :
    liesWithin size edge = true ↔ ∀ target ∈ edge, target.index < size := by
  simp [liesWithin]

@[simp] theorem size_pruned (g : Hypergraph) : g.pruned.size = g.size := by
  simp [pruned, size]

theorem isClosed_pruned (g : Hypergraph) : g.pruned.IsClosed := by
  intro edges hedges edge hedge target ht
  obtain ⟨all, _, rfl⟩ := Array.mem_map.1 hedges
  rw [size_pruned]
  exact liesWithin_iff.1 (List.mem_filter.1 hedge).2 target ht

def IsBelow (levels : Array Level) (bound : Level) (target : NodeId) : Prop :=
  ∃ level, levels[target.index]? = some level ∧ level < bound

theorem IsBelow.index_lt {target : NodeId} (h : IsBelow levels bound target) :
    target.index < levels.size := by
  obtain ⟨level, hlevel, _⟩ := h
  exact (Array.getElem?_eq_some_iff.1 hlevel).1

theorem edgeBelow?_cons_of_isBelow {target : NodeId} (h : IsBelow levels bound target)
    (rest : Hyperedge) :
    edgeBelow? levels bound (target :: rest) = edgeBelow? levels bound rest := by
  obtain ⟨level, hlevel, hlt⟩ := h
  simp [edgeBelow?, hlevel, hlt]

theorem edgeBelow?_cons_of_not_isBelow {target : NodeId} (h : ¬ IsBelow levels bound target)
    (htarget : target.index < levels.size) (rest : Hyperedge) :
    edgeBelow? levels bound (target :: rest) = some false := by
  have hlevel := Array.getElem?_eq_getElem htarget
  have hge : ¬ levels[target.index] < bound := fun hlt => h ⟨_, hlevel, hlt⟩
  simp [edgeBelow?, htarget, hge]

theorem edgeBelow?_cons_of_size_le {target : NodeId} (h : levels.size ≤ target.index)
    (rest : Hyperedge) : edgeBelow? levels bound (target :: rest) = none := by
  simp [edgeBelow?, h]

theorem edgeBelow?_eq_some_true_iff :
    edgeBelow? levels bound edge = some true ↔ ∀ target ∈ edge, IsBelow levels bound target := by
  induction edge with
  | nil => simp
  | cons target rest ih =>
      rw [List.forall_mem_cons]
      by_cases hbelow : IsBelow levels bound target
      · rw [edgeBelow?_cons_of_isBelow hbelow, ih, and_iff_right hbelow]
      · refine iff_of_false ?_ fun h => hbelow h.1
        by_cases htarget : target.index < levels.size
        · simp [edgeBelow?_cons_of_not_isBelow hbelow htarget]
        · simp [edgeBelow?_cons_of_size_le (Nat.le_of_not_lt htarget)]

/-- Looking at the targets of a hyperedge fails at the first that is not below the bound, when
it is missing. -/
theorem edgeBelow?_eq_none_iff :
    edgeBelow? levels bound edge = none ↔ ∃ reached missing rest,
      edge = reached ++ missing :: rest ∧ levels.size ≤ missing.index ∧
        ∀ target ∈ reached, IsBelow levels bound target := by
  induction edge with
  | nil => simp
  | cons target rest ih =>
      rw [exists_split_cons_iff]
      simp only [List.forall_mem_cons]
      by_cases hbelow : IsBelow levels bound target
      · have hpresent := Nat.not_le.2 hbelow.index_lt
        rw [edgeBelow?_cons_of_isBelow hbelow, ih]
        simp only [hpresent, hbelow, false_and, false_or, true_and]
      · by_cases htarget : target.index < levels.size
        · have hpresent := Nat.not_le.2 htarget
          rw [edgeBelow?_cons_of_not_isBelow hbelow htarget]
          simp [hpresent, hbelow]
        · have hmissing := Nat.le_of_not_lt htarget
          rw [edgeBelow?_cons_of_size_le hmissing]
          simp [hmissing]

theorem someBelow?_eq_none_iff :
    someBelow? levels bound edges = none ↔ ∃ before edge after,
      edges = before ++ edge :: after ∧ edgeBelow? levels bound edge = none ∧
        ∀ other ∈ before, edgeBelow? levels bound other ≠ some true := by
  induction edges with
  | nil => simp
  | cons edge rest ih =>
      rw [exists_split_cons_iff]
      simp only [List.forall_mem_cons]
      cases hedge : edgeBelow? levels bound edge with
      | none => simp [someBelow?, hedge]
      | some satisfied =>
          cases satisfied with
          | true => simp [someBelow?, hedge]
          | false =>
              have hrest : someBelow? levels bound (edge :: rest) =
                  someBelow? levels bound rest := by
                simp [someBelow?, hedge]
              rw [hrest, ih]
              simp

theorem someBelow?_filter {won : Bool} (h : someBelow? levels bound edges = some won) :
    someBelow? levels bound (edges.filter (liesWithin levels.size)) = some won := by
  induction edges with
  | nil => exact h
  | cons edge rest ih =>
      cases hedge : edgeBelow? levels bound edge with
      | none => simp [someBelow?, hedge] at h
      | some satisfied =>
          by_cases hpresent : liesWithin levels.size edge = true
          · rw [List.filter_cons_of_pos hpresent]
            cases satisfied with
            | true => simpa [someBelow?, hedge] using h
            | false => simpa [someBelow?, hedge] using ih (by simpa [someBelow?, hedge] using h)
          · rw [List.filter_cons_of_neg hpresent]
            cases satisfied with
            | true =>
                refine absurd (liesWithin_iff.2 fun target ht => ?_) hpresent
                exact (edgeBelow?_eq_some_true_iff.1 hedge target ht).index_lt
            | false => exact ih (by simpa [someBelow?, hedge] using h)

theorem judge?_pruned (hsize : levels.size = g.size) {won : Bool}
    (h : g.judge? levels bound i = some won) : g.pruned.judge? levels bound i = some won := by
  have hedges : g.pruned.edges[i]?.getD [] =
      (g.edges[i]?.getD []).filter (liesWithin levels.size) := by
    rw [pruned, Array.getElem?_map, hsize]
    cases g.edges[i]? <;> rfl
  rw [judge?, hedges]
  exact someBelow?_filter h

/-- A round that does not fail changes what it changes in the pruned hypergraph. -/
theorem round?_pruned (hsize : levels.size = g.size)
    (h : g.round? levels bound = some next) : g.pruned.round? levels bound = some next := by
  have hpruned : levels.size = g.pruned.size := hsize.trans g.size_pruned.symm
  have hjudge {i : Nat} (hopen : levels[i]? = some .infinity) :
      g.pruned.judge? levels bound i = g.judge? levels bound i := by
    cases hi : g.judge? levels bound i with
    | none =>
        have hnone := (g.round?_eq_none_iff levels bound hsize).2 ⟨i, hopen, hi⟩
        exact absurd (h.symm.trans hnone) (by simp)
    | some won => exact judge?_pruned hsize hi
  cases hround : g.pruned.round? levels bound with
  | none =>
      obtain ⟨i, hopen, hi⟩ := (g.pruned.round?_eq_none_iff levels bound hpruned).1 hround
      rw [hjudge hopen] at hi
      have hnone := (g.round?_eq_none_iff levels bound hsize).2 ⟨i, hopen, hi⟩
      exact absurd (h.symm.trans hnone) (by simp)
  | some other =>
      refine congrArg some (Array.ext_getElem? fun i => ?_)
      rw [g.pruned.getElem?_of_round?_eq_some levels other bound hpruned hround,
        g.getElem?_of_round?_eq_some levels next bound hsize h]
      by_cases hopen : levels[i]? = some .infinity
      · rw [hjudge hopen]
      · rw [if_neg fun hwon => hopen hwon.1, if_neg fun hwon => hopen hwon.1]

theorem levelsAfter?_pruned (h : g.levelsAfter? k = some levels) :
    g.pruned.levelsAfter? k = some levels ∧ levels.size = g.size := by
  induction k generalizing levels with
  | zero =>
      obtain rfl := Option.some.inj h
      exact ⟨by rw [levelsAfter?, size_pruned], by simp⟩
  | succ k ih =>
      obtain ⟨before, hbefore, hround⟩ := Option.bind_eq_some_iff.1 h
      obtain ⟨hpruned, hsize⟩ := ih hbefore
      refine ⟨(levelsAfter?_succ hpruned).trans (round?_pruned hsize hround), ?_⟩
      rw [g.size_of_round?_eq_some before levels _ hsize hround, hsize]

theorem rounds?_pruned {final : Array Level} {m : Nat} (hsize : levels.size = g.size)
    (h : g.rounds? m k levels = some final) : g.pruned.rounds? m k levels = some final := by
  induction m generalizing k levels with
  | zero => exact h
  | succ m ih =>
      rw [rounds?] at h ⊢
      cases hround : g.round? levels (.ofRound k) with
      | none => simp [hround] at h
      | some next =>
          simp only [hround, round?_pruned hsize hround] at h ⊢
          split at h
          · next hsame => rwa [if_pos hsame]
          · next hchange =>
              rw [if_neg hchange]
              exact ih ((g.size_of_round?_eq_some _ _ _ hsize hround).trans hsize) h

theorem rank?_pruned (h : g.rank? = some ranking) : g.pruned.rank? = some ranking := by
  obtain ⟨final, hfinal, rfl⟩ := Option.map_eq_some_iff.1 h
  rw [rank?, size_pruned, rounds?_pruned (by simp) hfinal, Option.map_some]

theorem exists_round?_eq_none {m : Nat} (h : g.rounds? m (k + 1) levels = none)
    (hlevels : g.levelsAfter? k = some levels) :
    ∃ j < k + m, ∃ before, g.levelsAfter? j = some before ∧
      g.round? before (.ofRound (j + 1)) = none := by
  induction m generalizing k levels with
  | zero => exact absurd h (by simp [rounds?])
  | succ m ih =>
      rw [rounds?] at h
      cases hround : g.round? levels (.ofRound (k + 1)) with
      | none => exact ⟨k, by omega, levels, hlevels, hround⟩
      | some next =>
          simp only [hround] at h
          split at h
          · exact absurd h (by simp)
          · obtain ⟨j, hj, hbefore⟩ := ih h ((levelsAfter?_succ hlevels).trans hround)
            exact ⟨j, by omega, hbefore⟩

theorem rank?_eq_none (hchanges : ∀ i < k, g.levelsAfter? (i + 1) ≠ g.levelsAfter? i)
    (hk : k ≤ g.size) (hlevels : g.levelsAfter? k = some levels)
    (hnone : g.levelsAfter? (k + 1) = none) : g.rank? = none := by
  obtain ⟨m, hrounds⟩ := exists_rounds?_eq hchanges (Nat.zero_le k)
    (show k < g.size + 1 + 0 by omega) rfl hlevels
  have hround := (levelsAfter?_succ hlevels).symm.trans hnone
  rw [rank?, hrounds, rounds?, hround, Option.map_none]

theorem IsExactUpTo.isBelow_iff (hexact : g.IsExactUpTo k levels)
    (hranking : ranking.IsExact g) (hk : k < 0xFFFFFFFF) {target : NodeId} :
    IsBelow levels (.ofRound (k + 1)) target ↔ (ranking.level target).toNat ≤ k := by
  rw [hranking.toNat_le_iff target k hk]
  by_cases htarget : target.index < g.size
  · rw [← hexact.lt_ofRound_iff (by omega) target htarget]
    rw [← hexact.size_eq] at htarget
    simp [IsBelow, htarget]
  · exact iff_of_false (fun h => htarget (hexact.size_eq ▸ h.index_lt))
      fun h => htarget h.index_lt

theorem IsExactUpTo.getElem?_eq_infinity_iff (hexact : g.IsExactUpTo k levels)
    (hranking : ranking.IsExact g) (hk : k < 0xFFFFFFFF) (hn : n.index < g.size) :
    levels[n.index]? = some .infinity ↔ k < (ranking.level n).toNat := by
  rw [← hexact.size_eq] at hn
  have hlevel := Array.getElem?_eq_getElem hn
  have hiff := hexact.toNat_le_iff _ _ hlevel k le_rfl
  rw [NodeId.ofIndex_index] at hiff
  rw [hlevel, Option.some_inj, ← Nat.not_le, hranking.toNat_le_iff n k hk, ← hiff]
  have hinfinity := Level.toNat_infinity
  rcases hexact.toNat_le _ _ hlevel with hinf | hle
  · rw [hinf]
    exact iff_of_true rfl (by omega)
  · refine iff_of_false (fun hinf => ?_) (by omega)
    rw [hinf] at hle
    omega

/-- A round fails at a node that has not been won before it, when the node has a hyperedge
with a missing target after targets that have all been won, and no earlier hyperedge is
satisfied. -/
theorem IsExactUpTo.round?_eq_none_iff_exists (hexact : g.pruned.IsExactUpTo k levels)
    (hranking : ranking.IsExact g.pruned) (hsize : g.size < 0xFFFFFFFF)
    (hk : k < 0xFFFFFFFF) :
    g.round? levels (.ofRound (k + 1)) = none ↔ ∃ n before reached missing rest after,
      g.hyperedges n = before ++ (reached ++ missing :: rest) :: after ∧
        g.size ≤ missing.index ∧ (∀ target ∈ reached, (ranking.level target).toNat ≤ k) ∧
        k < (ranking.level n).toNat ∧
        ∀ other ∈ before, ¬ ∀ target ∈ other, (ranking.level target).toNat ≤ k := by
  have hlevels : levels.size = g.size := hexact.size_eq.trans g.size_pruned
  have hjudge {n : NodeId} (hn : n.index < g.size) :
      g.judge? levels (.ofRound (k + 1)) n.index = none ↔ ∃ before reached missing rest after,
        g.hyperedges n = before ++ (reached ++ missing :: rest) :: after ∧
          g.size ≤ missing.index ∧ (∀ target ∈ reached, (ranking.level target).toNat ≤ k) ∧
          ∀ other ∈ before, ¬ ∀ target ∈ other, (ranking.level target).toNat ≤ k := by
    rw [judge?, ← hyperedges, someBelow?_eq_none_iff]
    simp only [edgeBelow?_eq_none_iff, ne_eq, edgeBelow?_eq_some_true_iff,
      hexact.isBelow_iff hranking hk, hlevels]
    constructor
    · rintro ⟨before, _, after, hedges, ⟨reached, missing, rest, rfl, hmissing, hreached⟩, h⟩
      exact ⟨before, reached, missing, rest, after, hedges, hmissing, hreached, h⟩
    · rintro ⟨before, reached, missing, rest, after, hedges, hmissing, hreached, h⟩
      exact ⟨before, _, after, hedges, ⟨reached, missing, rest, rfl, hmissing, hreached⟩, h⟩
  rw [g.round?_eq_none_iff _ _ hlevels]
  constructor
  · rintro ⟨i, hopen, hfails⟩
    have hi := (Array.getElem?_eq_some_iff.1 hopen).1
    rw [hlevels] at hi
    have hindex : (NodeId.ofIndex i).index = i := NodeId.index_ofIndex i (by omega)
    rw [← hindex] at hi hopen hfails
    obtain ⟨before, reached, missing, rest, after, hedges, hmissing, hreached, hbefore⟩ :=
      (hjudge hi).1 hfails
    exact ⟨.ofIndex i, before, reached, missing, rest, after, hedges, hmissing, hreached,
      (hexact.getElem?_eq_infinity_iff hranking hk (by rwa [size_pruned])).1 hopen, hbefore⟩
  · rintro ⟨n, before, reached, missing, rest, after, hedges, hmissing, hreached, hn, hbefore⟩
    have hindex : n.index < g.size := by
      by_contra hn
      simp [g.hyperedges_of_size_le n (Nat.le_of_not_lt hn)] at hedges
    exact ⟨n.index,
      (hexact.getElem?_eq_infinity_iff hranking hk (by rwa [size_pruned])).2 hn,
      (hjudge hindex).2 ⟨before, reached, missing, rest, after, hedges, hmissing, hreached,
        hbefore⟩⟩

/-- A node comes upon a missing target: in its hyperedges up to some `before`, and then up to
some targets `reached` that are all won. In the round after the last of these the node has not
been won yet, and none of the hyperedges before is satisfied. -/
structure ComesUpon (g : Hypergraph) (ranking : Ranking) (n : NodeId)
    (before : List Hyperedge) (reached : Hyperedge) (missing : NodeId) : Prop where
  hyperedges_eq : ∃ rest after,
    g.hyperedges n = before ++ (reached ++ missing :: rest) :: after
  size_le : g.size ≤ missing.index
  reached_won : ∀ target ∈ reached, target.index < g.size ∧ ranking.level target ≠ .infinity
  not_won : ranking.level n = .infinity ∨
    ranking.highest reached + 1 ≤ (ranking.level n).toNat
  before_unsatisfied : ∀ other ∈ before, ¬ ∀ target ∈ other,
    target.index < g.size ∧ (ranking.level target).toNat < ranking.highest reached + 1

theorem ComesUpon.round?_eq_none {before : List Hyperedge} {reached : Hyperedge}
    {missing : NodeId} (h : g.ComesUpon ranking n before reached missing)
    (hexact : g.pruned.IsExactUpTo (ranking.highest reached) levels)
    (hranking : ranking.IsExact g.pruned) (hsize : g.size < 0xFFFFFFFF)
    (hreached : ranking.highest reached < 0xFFFFFFFF) :
    g.round? levels (.ofRound (ranking.highest reached + 1)) = none := by
  obtain ⟨rest, after, hedges⟩ := h.hyperedges_eq
  refine (hexact.round?_eq_none_iff_exists hranking hsize hreached).2 ⟨n, before, reached,
    missing, rest, after, hedges, h.size_le, Ranking.highest_le_iff.1 le_rfl, ?_, ?_⟩
  · rcases h.not_won with hinfinity | hle
    · rwa [hinfinity, Level.toNat_infinity]
    · exact hle
  · intro other hother hsatisfied
    refine h.before_unsatisfied other hother fun target ht => ?_
    have hle := hsatisfied target ht
    have hwon := (hranking.toNat_le_iff target _ hreached).1 hle
    exact ⟨g.size_pruned ▸ hwon.index_lt, Nat.lt_succ_of_le hle⟩

theorem IsExactUpTo.exists_comesUpon (hexact : g.pruned.IsExactUpTo k levels)
    (hranking : ranking.IsExact g.pruned) (hsize : g.size < 0xFFFFFFFF)
    (hk : k < 0xFFFFFFFF) (h : g.round? levels (.ofRound (k + 1)) = none) :
    ∃ n before reached missing, g.ComesUpon ranking n before reached missing := by
  obtain ⟨n, before, reached, missing, rest, after, hedges, hmissing, hreached, hn, hbefore⟩ :=
    (hexact.round?_eq_none_iff_exists hranking hsize hk).1 h
  have hhighest := Ranking.highest_le_iff.2 hreached
  refine ⟨n, before, reached, missing, ⟨rest, after, hedges⟩, hmissing, ?_, .inr (by omega), ?_⟩
  · intro target ht
    have hwon := (hranking.toNat_le_iff target k hk).1 (hreached target ht)
    refine ⟨g.size_pruned ▸ hwon.index_lt, fun hinfinity => ?_⟩
    exact (hranking.eq_infinity_iff target).1 hinfinity k hwon
  · intro other hother hsatisfied
    refine hbefore other hother fun target ht => ?_
    have hlt := (hsatisfied target ht).2
    omega

theorem EndsAfter.rank?_eq_none (hends : g.pruned.EndsAfter j ranking) (hj : j ≤ g.size)
    (hk : k ≤ j) (hnone : g.levelsAfter? (k + 1) = none) : g.rank? = none := by
  classical
  have hfails : ∃ i, g.levelsAfter? (i + 1) = none := ⟨k, hnone⟩
  have hfirst := Nat.find_spec hfails
  have hle : Nat.find hfails ≤ k := Nat.find_min' hfails hnone
  have hbefore {i : Nat} (hi : i ≤ Nat.find hfails) : ∃ levels, g.levelsAfter? i = some levels := by
    cases i with
    | zero => exact ⟨_, rfl⟩
    | succ i => exact Option.ne_none_iff_exists'.1 (Nat.find_min hfails hi)
  obtain ⟨levels, hlevels⟩ := hbefore le_rfl
  refine Hypergraph.rank?_eq_none (fun i hi hsame => ?_) (hle.trans (hk.trans hj)) hlevels hfirst
  obtain ⟨before, hbefore⟩ := hbefore hi.le
  refine hends.changes i (by omega) ?_
  rw [(levelsAfter?_pruned (hsame.trans hbefore)).1, (levelsAfter?_pruned hbefore).1]

/-- A hypergraph with missing targets has no ranking exactly when one of these is come upon,
given the levels of the hypergraph without the hyperedges that hold a missing target. When it
has a ranking, it is those levels. -/
theorem rankByOpen?_eq_none_iff_comesUpon (g : Hypergraph) (hsize : g.size < 0xFFFFFFFF) :
    ∃ ranking, g.pruned.rankByOpen? = some ranking ∧ ranking.IsExact g.pruned ∧
      (g.rankByOpen? = none ↔
        ∃ n before reached missing, g.ComesUpon ranking n before reached missing) ∧
      (g.rankByOpen? ≠ none → g.rankByOpen? = some ranking) := by
  have hclosed := g.isClosed_pruned
  have hprunedsize : g.pruned.size < 0xFFFFFFFF := by rwa [size_pruned]
  obtain ⟨last, ranking, hcard, hends, hexact⟩ := exists_endsAfter hclosed hprunedsize
  have hlast : last ≤ g.size := by
    rw [← size_pruned]
    exact hcard.trans (g.pruned.card_wonPlaces_le last)
  have hranking : g.pruned.rank? = some ranking := hends.rank?_eq (by rwa [size_pruned])
  simp only [rankByOpen?_eq]
  refine ⟨ranking, hranking, hexact, ⟨fun hnone => ?_, ?_⟩, fun hsome => ?_⟩
  · obtain ⟨j, hj, levels, hlevels, hround⟩ :=
      exists_round?_eq_none (Option.map_eq_none_iff.1 hnone) rfl
    have hpruned := (levelsAfter?_pruned hlevels).1
    obtain ⟨before, hbefore, hupto⟩ :=
      exists_levelsAfter? hclosed hprunedsize (k := j) (by rw [size_pruned]; omega)
    obtain rfl := Option.some.inj (hbefore.symm.trans hpruned)
    exact hupto.exists_comesUpon hexact hsize (by omega) hround
  · rintro ⟨n, before, reached, missing, hcomes⟩
    have hhighest : ranking.highest reached ≤ last := Ranking.highest_le_iff.2 fun target ht =>
      hends.toNat_level_le hclosed hprunedsize (by rwa [size_pruned])
        (hcomes.reached_won target ht).2
    refine hends.rank?_eq_none hlast hhighest ?_
    by_contra hsome
    obtain ⟨next, hnext⟩ := Option.ne_none_iff_exists'.1 hsome
    obtain ⟨levels, hlevels⟩ := exists_levelsAfter?_of_le hnext (Nat.le_succ _)
    obtain ⟨before, hbefore, hupto⟩ := exists_levelsAfter? hclosed hprunedsize
      (k := ranking.highest reached) (by rw [size_pruned]; omega)
    obtain rfl := Option.some.inj (hbefore.symm.trans (levelsAfter?_pruned hlevels).1)
    rw [levelsAfter?_succ hlevels] at hsome
    exact hsome (hcomes.round?_eq_none hupto hexact hsize (by omega))
  · obtain ⟨other, hother⟩ := Option.ne_none_iff_exists'.1 hsome
    rw [hother, ← rank?_pruned hother, hranking]

/-- Node 0 comes upon the missing target 9 in round 2. Node 2 does not: it is won in that
round by its second hyperedge, which is too early for its first. -/
def frayed : Hypergraph :=
  ⟨#[[[.ofIndex 1, .ofIndex 9]], [[]], [[.ofIndex 2, .ofIndex 9], [.ofIndex 1]]]⟩

theorem rankByOpen?_frayed :
    frayed.size < 0xFFFFFFFF ∧
      frayed.pruned.rankByOpen? = some ⟨#[.infinity, .ofRound 1, .ofRound 2]⟩ ∧
      frayed.ComesUpon ⟨#[.infinity, .ofRound 1, .ofRound 2]⟩ .root [] [.ofIndex 1] (.ofIndex 9) ∧
      frayed.rankByOpen? = none := by
  have hsize : frayed.size < 0xFFFFFFFF := by decide
  have hlevels : frayed.pruned.rankByOpen? =
      some ⟨#[.infinity, .ofRound 1, .ofRound 2]⟩ := by
    decide +kernel
  have hcomes : frayed.ComesUpon ⟨#[.infinity, .ofRound 1, .ofRound 2]⟩ .root []
      [.ofIndex 1] (.ofIndex 9) := by
    refine ⟨⟨[], [], rfl⟩, ?_, ?_, ?_, ?_⟩ <;> decide +kernel
  obtain ⟨ranking, hranking, -, hiff, -⟩ := rankByOpen?_eq_none_iff_comesUpon frayed hsize
  obtain rfl := Option.some.inj (hranking.symm.trans hlevels)
  exact ⟨hsize, hlevels, hcomes, hiff.2 ⟨_, _, _, _, hcomes⟩⟩

/-- Here node 0 is won before its first hyperedge could come upon the missing target. -/
example : rankByOpen? ⟨#[[[.ofIndex 0, .ofIndex 9], [.ofIndex 1]], [[]]]⟩ =
    some ⟨#[.ofRound 2, .ofRound 1]⟩ := by
  decide +kernel

end Hypergraph

end BisimPlay
