import BisimPlay.Hypergraph.Ranking

/-!
# Ranking by open nodes

A node is open as long as its level is infinity. A finite level stays, so a round has
only open nodes to judge, and what it leaves open is what the next round has to judge.
Ranking in this way gives the same levels, by `rankByOpen?_eq`.
-/

namespace BisimPlay

namespace Hypergraph

/-- Does a round win a node? `none` when a missing target was looked at. -/
def judge? (g : Hypergraph) (levels : Array Level) (round : Level) (i : Nat) :
    Option Bool :=
  someBelow? levels round (g.edges[i]?.getD [])

/-- Judge open nodes, adding those that are won to the first list and those that are
left open to the second. -/
def sift? (g : Hypergraph) (levels : Array Level) (round : Level)
    (won left : List Nat) : List Nat → Option (List Nat × List Nat)
  | [] => some (won, left)
  | i :: rest =>
    match g.judge? levels round i with
    | none => none
    | some true => g.sift? levels round (i :: won) left rest
    | some false => g.sift? levels round won (i :: left) rest

/-- Give a level to nodes. -/
def settle (levels : Array Level) (round : Level) (won : List Nat) : Array Level :=
  won.foldl (fun levels i => levels.setIfInBounds i round) levels

/-- The rounds from number `k` on, given the nodes that are open. -/
def roundsByOpen? (g : Hypergraph) :
    Nat → Nat → Array Level → List Nat → Option (Array Level)
  | 0, _, levels, _ => some levels
  | n + 1, k, levels, opened =>
    match g.sift? levels (.ofRound k) [] [] opened with
    | none => none
    | some (won, left) =>
      if won.isEmpty || !(Level.ofRound k).isFinite then some levels
      else g.roundsByOpen? n (k + 1) (settle levels (.ofRound k) won) left

/-- The ranking of a hypergraph, `none` when a missing target was looked at. -/
def rankByOpen? (g : Hypergraph) : Option Ranking :=
  (g.roundsByOpen? (g.size + 1) 1 (Array.replicate g.size .infinity)
    (List.range g.size)).map Ranking.mk

theorem sift?_eq_none_iff (g : Hypergraph) (levels : Array Level) (round : Level)
    (won left list : List Nat) :
    g.sift? levels round won left list = none ↔
      ∃ i ∈ list, g.judge? levels round i = none := by
  induction list generalizing won left with
  | nil => simp [sift?]
  | cons i rest ih =>
      cases hi : g.judge? levels round i with
      | none => simp [sift?, hi]
      | some b => cases b <;> simp [sift?, hi, ih]

theorem mem_of_sift?_eq_some (g : Hypergraph) (levels : Array Level) (round : Level)
    (won left list : List Nat) {won' left' : List Nat}
    (h : g.sift? levels round won left list = some (won', left')) (i : Nat) :
    (i ∈ won' ↔ i ∈ won ∨ i ∈ list ∧ g.judge? levels round i = some true) ∧
      (i ∈ left' ↔ i ∈ left ∨ i ∈ list ∧ g.judge? levels round i = some false) := by
  induction list generalizing won left with
  | nil =>
      obtain ⟨rfl, rfl⟩ : won = won' ∧ left = left' := by simpa [sift?] using h
      simp
  | cons j rest ih =>
      cases hj : g.judge? levels round j with
      | none => simp [sift?, hj] at h
      | some b =>
          cases b with
          | true =>
              have hrest := ih (j :: won) left (by simpa [sift?, hj] using h)
              grind
          | false =>
              have hrest := ih won (j :: left) (by simpa [sift?, hj] using h)
              grind

@[simp] theorem size_settle (levels : Array Level) (round : Level) (won : List Nat) :
    (settle levels round won).size = levels.size := by
  unfold settle
  induction won generalizing levels with
  | nil => rfl
  | cons i rest ih => simp [ih]

theorem getElem?_settle (levels : Array Level) (round : Level) (won : List Nat)
    (i : Nat) :
    (settle levels round won)[i]? =
      if i ∈ won then levels[i]?.map fun _ => round else levels[i]? := by
  unfold settle
  induction won generalizing levels with
  | nil => simp
  | cons j rest ih =>
      rw [List.foldl_cons, ih]
      by_cases hij : j = i
      · subst hij
        by_cases hj : j < levels.size <;> simp [hj]
      · simp [Array.getElem?_setIfInBounds_ne hij, Ne.symm hij]

/-- Judging a list fails when judging a member does. -/
private theorem mapM_eq_none_iff {α β : Type} (f : α → Option β) (list : List α) :
    list.mapM f = none ↔ ∃ a ∈ list, f a = none := by
  induction list with
  | nil => simp
  | cons a rest ih =>
      cases ha : f a with
      | none => simp [List.mapM_cons, ha]
      | some b => cases hrest : rest.mapM f <;> simp_all [List.mapM_cons]

/-- Judging a list judges member by member. -/
private theorem map_of_mapM_eq_some {α β : Type} (f : α → Option β) (list : List α)
    {results : List β} (h : list.mapM f = some results) :
    list.map f = results.map some := by
  induction list generalizing results with
  | nil =>
      obtain rfl : [] = results := by simpa using h
      rfl
  | cons a rest ih =>
      cases ha : f a with
      | none => simp [List.mapM_cons, ha] at h
      | some b =>
          cases hrest : rest.mapM f with
          | none => simp [List.mapM_cons, ha, hrest] at h
          | some others =>
              obtain rfl : b :: others = results := by
                simpa [List.mapM_cons, ha, hrest] using h
              simp [ha, ih hrest]

/-- What a round asks for at each place: the level there and the hyperedges there. -/
private theorem getElem?_zip_edges (g : Hypergraph) (levels : Array Level)
    (hsize : levels.size = g.size) (i : Nat) :
    (levels.toList.zip g.edges.toList)[i]? =
      levels[i]?.map fun level => (level, g.edges[i]?.getD []) := by
  have hedges : g.edges.size = levels.size := hsize.symm
  by_cases hi : i < levels.size
  · simp [hi, hedges]
  · simp [hedges, hi]

/-- A node fails a round when it is open and judging it fails. -/
private theorem relevel?_eq_none_iff (levels : Array Level) (round level : Level)
    (edges : List Hyperedge) :
    relevel? levels round level edges = none ↔
      level = .infinity ∧ someBelow? levels round edges = none := by
  unfold relevel?
  by_cases h : level = .infinity <;> simp [Level.isFinite, h]

theorem round?_eq_none_iff (g : Hypergraph) (levels : Array Level) (round : Level)
    (hsize : levels.size = g.size) :
    g.round? levels round = none ↔
      ∃ i, levels[i]? = some .infinity ∧ g.judge? levels round i = none := by
  simp only [round?, Option.map_eq_none_iff, mapM_eq_none_iff, relevel?_eq_none_iff,
    List.mem_iff_getElem?, getElem?_zip_edges g levels hsize, judge?]
  constructor
  · rintro ⟨⟨level, edges⟩, ⟨i, hi⟩, rfl, hjudge⟩
    grind
  · rintro ⟨i, hi, hjudge⟩
    exact ⟨(.infinity, g.edges[i]?.getD []), ⟨i, by simp [hi]⟩, rfl, hjudge⟩

theorem size_of_round?_eq_some (g : Hypergraph) (levels next : Array Level)
    (round : Level) (hsize : levels.size = g.size)
    (h : g.round? levels round = some next) : next.size = levels.size := by
  have hedges : g.edges.size = levels.size := hsize.symm
  obtain ⟨results, hresults, rfl⟩ := Option.map_eq_some_iff.1 h
  have hlength := congrArg List.length (map_of_mapM_eq_some _ _ hresults)
  simpa [hedges] using hlength.symm

/-- After a round, an open node that the round wins has the level of the round, and
every other node the level that it had. -/
theorem getElem?_of_round?_eq_some (g : Hypergraph) (levels next : Array Level)
    (round : Level) (hsize : levels.size = g.size)
    (h : g.round? levels round = some next) (i : Nat) :
    next[i]? =
      if levels[i]? = some .infinity ∧ g.judge? levels round i = some true
      then some round else levels[i]? := by
  obtain ⟨results, hresults, rfl⟩ := Option.map_eq_some_iff.1 h
  have hi := congrArg (·[i]?) (map_of_mapM_eq_some _ _ hresults)
  simp only [List.getElem?_map, getElem?_zip_edges g levels hsize, Option.map_map] at hi
  rw [List.getElem?_toArray]
  cases hlevel : levels[i]? with
  | none =>
      cases hresult : results[i]? with
      | none => simp
      | some result => simp [hlevel, hresult] at hi
  | some level =>
      cases hresult : results[i]? with
      | none => simp [hlevel, hresult] at hi
      | some result =>
          by_cases hopen : level = .infinity
          · cases hjudge : g.judge? levels round i with
            | none => simp_all [relevel?, judge?]
            | some b => cases b <;> simp_all [relevel?, judge?]
          · simp_all [relevel?]

theorem roundsByOpen?_eq (g : Hypergraph) (n k : Nat) (levels : Array Level)
    (opened : List Nat) (hsize : levels.size = g.size)
    (hopened : ∀ i, i ∈ opened ↔ levels[i]? = some .infinity) :
    g.roundsByOpen? n k levels opened = g.rounds? n k levels := by
  induction n generalizing k levels opened with
  | zero => rfl
  | succ n ih =>
      simp only [roundsByOpen?, rounds?]
      cases hsift : g.sift? levels (.ofRound k) [] [] opened with
      | none =>
          obtain ⟨i, hi, hjudge⟩ := (g.sift?_eq_none_iff _ _ _ _ _).1 hsift
          have hinfinite := (hopened i).1 hi
          rw [(g.round?_eq_none_iff _ _ hsize).2 ⟨i, hinfinite, hjudge⟩]
      | some sifted =>
          obtain ⟨won, left⟩ := sifted
          have hmem := g.mem_of_sift?_eq_some _ _ _ _ _ hsift
          simp only [List.not_mem_nil, false_or, hopened] at hmem
          cases hround : g.round? levels (.ofRound k) with
          | none =>
              obtain ⟨i, hinfinite, hjudge⟩ := (g.round?_eq_none_iff _ _ hsize).1 hround
              have hfail := (g.sift?_eq_none_iff levels (.ofRound k) [] [] opened).2
                ⟨i, (hopened i).2 hinfinite, hjudge⟩
              simp [hfail] at hsift
          | some next =>
              have hnext := g.getElem?_of_round?_eq_some _ _ _ hsize hround
              have hsettle : settle levels (.ofRound k) won = next := by
                apply Array.ext_getElem?
                intro i
                rw [getElem?_settle, hnext]
                grind
              by_cases hstop : won = [] ∨ Level.ofRound k = .infinity
              · have hsame : next = levels := by
                  apply Array.ext_getElem?
                  intro i
                  rw [hnext]
                  grind
                rcases hstop with hstop | hstop <;> simp [hstop, hsame]
              · obtain ⟨hwon, hfinite⟩ := not_or.1 hstop
                obtain ⟨i, hi⟩ := List.exists_mem_of_ne_nil _ hwon
                have hchange : next ≠ levels := by
                  rintro rfl
                  have := hnext i
                  grind
                have hjudged (i : Nat) (hi : levels[i]? = some .infinity) :
                    g.judge? levels (.ofRound k) i ≠ none := by
                  intro hjudge
                  simp [(g.round?_eq_none_iff _ _ hsize).2 ⟨i, hi, hjudge⟩] at hround
                have hleft (i : Nat) : i ∈ left ↔ next[i]? = some .infinity := by
                  rw [(hmem i).2, hnext]
                  by_cases hi : levels[i]? = some .infinity
                  · cases hjudge : g.judge? levels (.ofRound k) i with
                    | none => exact absurd hjudge (hjudged i hi)
                    | some b => cases b <;> simp [hi, hfinite]
                  · simp [hi]
                have hnextsize : next.size = g.size := by
                  rw [← hsettle, size_settle, hsize]
                simp [hwon, Level.isFinite, hfinite, hchange, hsettle,
                  ih (k + 1) next left hnextsize hleft]

theorem rankByOpen?_eq (g : Hypergraph) : g.rankByOpen? = g.rank? := by
  unfold rankByOpen? rank?
  rw [roundsByOpen?_eq]
  · simp
  · intro i
    simp [Array.getElem?_replicate]

end Hypergraph

end BisimPlay
