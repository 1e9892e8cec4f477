import BisimPlay.Proofs.Contest.Verdict
import Mathlib.Algebra.Ring.Parity
import Mathlib.Order.Bounds.Defs
import Mathlib.Order.Nat

/-!
# Levels and strata

Two processes may be told apart late or early. `Alike k p q` says that `k` exchanges of an
attack and an answer do not tell them apart; it is a recursion on `k` over the steps of
the system and knows nothing of arenas. In a solved contest the level of a pair is twice
the least number of exchanges that tell its two processes apart, and infinity when none
does, so it is the same in every arena in which the pair stands.

Every second round of the ranking judges pairs. `isWonWithin_add_two_iff` follows one
exchange through the attacks on a pair, and the two starts of the rounds, zero and one,
give the even and the odd rounds.
-/

namespace BisimPlay

open TransitionSystem

namespace TransitionSystem

/-- Two processes are not told apart by a number of exchanges: none tells any two apart,
and one more than `k` does not when every attack on either has an answer of the other
after which `k` do not. -/
def Alike (lts : TransitionSystem) (attacker defender : Semantics) :
    Nat → ProcessId → ProcessId → Prop
  | 0, _, _ => True
  | k + 1, p, q =>
    (∀ a p', lts.Takes attacker p a p' →
      ∃ q', lts.Takes defender q a q' ∧ lts.Alike attacker defender k p' q') ∧
    ∀ a q', lts.Takes attacker q a q' →
      ∃ p', lts.Takes defender p a p' ∧ lts.Alike attacker defender k p' q'

variable {lts : TransitionSystem} {attacker defender : Semantics} {p q : ProcessId}

theorem alike_succ_iff (k : Nat) :
    lts.Alike attacker defender (k + 1) p q ↔
      ∀ attack ∈ (Position.pair p q).successors (lts.steps attacker) (lts.steps defender),
        attack.IsSafe (lts.steps defender) (lts.Alike attacker defender k) := by
  simp only [Alike, Position.successors, List.mem_append, List.mem_map, or_imp, forall_and,
    forall_exists_index, and_imp, forall_apply_eq_imp_iff₂]
  constructor
  · rintro ⟨hleft, hright⟩
    exact ⟨fun step hstep => hleft _ _ hstep, fun step hstep => hright _ _ hstep⟩
  · rintro ⟨hleft, hright⟩
    exact ⟨fun a p' hstep => hleft ⟨a, p'⟩ hstep, fun a q' hstep => hright ⟨a, q'⟩ hstep⟩

theorem alike_or_exists_isLeast (lts : TransitionSystem) (attacker defender : Semantics)
    (p q : ProcessId) :
    (∀ k, lts.Alike attacker defender k p q) ∨
      ∃ k, IsLeast {k | ¬ lts.Alike attacker defender k p q} k := by
  classical
  by_cases hapart : ∃ k, ¬ lts.Alike attacker defender k p q
  · exact .inr ⟨Nat.find hapart, Nat.find_spec hapart, fun _ hk => Nat.find_min' hapart hk⟩
  · push Not at hapart
    exact .inl hapart

end TransitionSystem

namespace Arena.IsComplete

variable {attacks answers : ProcessId → List Transition} {root : Position}
  {arena : Arena} {n : NodeId} {position : Position} {j : Nat} {P : Position → Prop}

theorem isWonWithin_succ_iff_of_pair (h : arena.IsComplete attacks answers root)
    (hwon : ∀ m attack, arena.position? m = some attack → attack.isPair = false →
      (arena.hypergraph.IsWonWithin j m ↔ ¬ P attack))
    (hn : arena.position? n = some position) (hpair : position.isPair = true) :
    arena.hypergraph.IsWonWithin (j + 1) n ↔
      ¬ ∀ attack ∈ position.successors attacks answers, P attack := by
  obtain ⟨targets, hedges, htargets⟩ := h.targets_of_pair hn hpair
  have hattack {attack : Position} (hmem : attack ∈ position.successors attacks answers) :
      attack.isPair = false := by
    rw [Position.isPair_of_mem_successors _ _ _ _ hmem, hpair]
    rfl
  rw [Hypergraph.isWonWithin_succ, ← hyperedges, hedges]
  push Not
  constructor
  · rintro ⟨edge, hedge, hall⟩
    obtain ⟨target, ht, rfl⟩ := List.mem_map.1 hedge
    obtain ⟨attack, hmem, htarget⟩ := exists_successor htargets ht
    exact ⟨attack, hmem, (hwon target attack htarget (hattack hmem)).1
      (hall target (List.mem_singleton_self target))⟩
  · rintro ⟨attack, hmem, hlost⟩
    obtain ⟨target, ht, htarget⟩ := exists_target htargets hmem
    refine ⟨[target], List.mem_map.2 ⟨target, ht, rfl⟩, fun other hother => ?_⟩
    rw [List.mem_singleton.1 hother]
    exact (hwon target attack htarget (hattack hmem)).2 hlost

theorem isWonWithin_succ_iff_of_attack (h : arena.IsComplete attacks answers root)
    (hwon : ∀ m pair, arena.position? m = some pair → pair.isPair = true →
      (arena.hypergraph.IsWonWithin j m ↔ ¬ P pair))
    (hn : arena.position? n = some position) (hattack : position.isPair = false) :
    arena.hypergraph.IsWonWithin (j + 1) n ↔
      ¬ ∃ pair ∈ position.successors attacks answers, P pair := by
  obtain ⟨targets, hedges, htargets⟩ := h.targets_of_attack hn hattack
  have hpair {pair : Position} (hmem : pair ∈ position.successors attacks answers) :
      pair.isPair = true := by
    rw [Position.isPair_of_mem_successors _ _ _ _ hmem, hattack]
    rfl
  rw [Hypergraph.isWonWithin_succ, ← hyperedges, hedges]
  push Not
  constructor
  · rintro ⟨edge, hedge, hall⟩ pair hmem
    rw [List.mem_singleton] at hedge
    obtain ⟨target, ht, htarget⟩ := exists_target htargets hmem
    exact (hwon target pair htarget (hpair hmem)).1 (hall target (hedge ▸ ht))
  · intro hlost
    refine ⟨targets, List.mem_singleton_self targets, fun target ht => ?_⟩
    obtain ⟨pair, hmem, htarget⟩ := exists_successor htargets ht
    exact (hwon target pair htarget (hpair hmem)).2 (hlost pair hmem)

end Arena.IsComplete

namespace Contest.IsSolved

variable {attacker defender attacker' defender' : Semantics} {contest other : Contest}
  {m n : NodeId} {x y x' y' : ProcessId} {j k : Nat}

theorem isWonWithin_add_two_iff (h : contest.IsSolved attacker defender)
    (hj : ∀ n x y, contest.arena.position? n = some (.pair x y) →
      (contest.arena.hypergraph.IsWonWithin j n ↔
        ¬ contest.lts.Alike attacker defender k x y))
    (hn : contest.arena.position? n = some (.pair x y)) :
    contest.arena.hypergraph.IsWonWithin (j + 2) n ↔
      ¬ contest.lts.Alike attacker defender (k + 1) x y := by
  have hpairs (m : NodeId) (pair : Position) (hm : contest.arena.position? m = some pair)
      (hpair : pair.isPair = true) :
      contest.arena.hypergraph.IsWonWithin j m ↔
        ¬ pair.IsSafe (contest.lts.steps defender) (contest.lts.Alike attacker defender k) := by
    cases pair with
    | pair left right => exact hj m left right hm
    | leftAttack step right => simp [Position.isPair] at hpair
    | rightAttack left step => simp [Position.isPair] at hpair
  rw [h.isComplete.isWonWithin_succ_iff_of_pair (j := j + 1)
    (P := (·.IsSafe (contest.lts.steps defender)
      (contest.lts.Alike attacker defender k))) ?_ hn rfl, alike_succ_iff]
  intro m attack hm hattack
  rw [h.isComplete.isWonWithin_succ_iff_of_attack hpairs hm hattack,
    Position.isSafe_iff_of_attack (contest.lts.steps attacker) hattack, not_iff_not]
  constructor
  · rintro ⟨pair, hmem, hsafe⟩
    have hpair := Position.isPair_of_mem_successors _ _ _ _ hmem
    rw [hattack] at hpair
    cases pair with
    | pair left right => exact ⟨left, right, hmem, hsafe⟩
    | leftAttack step right => simp [Position.isPair] at hpair
    | rightAttack left step => simp [Position.isPair] at hpair
  · rintro ⟨left, right, hmem, halike⟩
    exact ⟨.pair left right, hmem, halike⟩

theorem not_isWonWithin_one (h : contest.IsSolved attacker defender)
    (hn : contest.arena.position? n = some (.pair x y)) :
    ¬ contest.arena.hypergraph.IsWonWithin 1 n := by
  rw [h.isComplete.isWonWithin_succ_iff_of_pair (j := 0) (P := fun _ => True)
    (fun m _ _ _ => by simp) hn rfl]
  simp

/-- A pair is won within `2 * k` rounds, or within one more, when `k` exchanges tell its
two processes apart. -/
theorem isWonWithin_two_mul_add_iff (h : contest.IsSolved attacker defender) (hj : j ≤ 1)
    (hn : contest.arena.position? n = some (.pair x y)) :
    contest.arena.hypergraph.IsWonWithin (2 * k + j) n ↔
      ¬ contest.lts.Alike attacker defender k x y := by
  induction k generalizing n x y with
  | zero =>
      have hlost : ¬ contest.arena.hypergraph.IsWonWithin j n :=
        fun hwon => h.not_isWonWithin_one hn (hwon.mono hj)
      simpa [Alike] using hlost
  | succ k ih =>
      rw [show 2 * (k + 1) + j = 2 * k + j + 2 by omega]
      exact h.isWonWithin_add_two_iff (fun _ _ _ hm => ih hm) hn

theorem level_eq_infinity_of_alike (h : contest.IsSolved attacker defender)
    (hn : contest.arena.position? n = some (.pair x y))
    (halike : ∀ k, contest.lts.Alike attacker defender k x y) :
    contest.level n = .infinity := by
  rw [level, h.isExact.eq_infinity_iff]
  intro j hwon
  have hlater := hwon.mono (show j ≤ 2 * j + 0 by omega)
  exact (h.isWonWithin_two_mul_add_iff (Nat.zero_le 1) hn).1 hlater (halike j)

/-- The level of a pair is twice the least number of exchanges that tell its two processes
apart. -/
theorem level_eq_two_mul_of_isLeast (h : contest.IsSolved attacker defender)
    (hn : contest.arena.position? n = some (.pair x y))
    (hk : IsLeast {k | ¬ contest.lts.Alike attacker defender k x y} k) :
    contest.level n ≠ .infinity ∧ (contest.level n).toNat = 2 * k := by
  have hwon {i : Nat} (j : Nat) (hj : j ≤ 1) :
      contest.arena.hypergraph.IsWonWithin (2 * i + j) n ↔
        ¬ contest.lts.Alike attacker defender i x y :=
    h.isWonWithin_two_mul_add_iff hj hn
  have hfinite : contest.level n ≠ .infinity := fun hinfinity =>
    (h.isExact.eq_infinity_iff n).1 hinfinity _ ((hwon 0 (Nat.zero_le 1)).2 hk.1)
  have hlevel := Level.toNat_lt_of_ne_infinity hfinite
  have hle {i : Nat} (hi : i < 0xFFFFFFFF) :
      (contest.level n).toNat ≤ i ↔ contest.arena.hypergraph.IsWonWithin i n :=
    h.isExact.toNat_le_iff n i hi
  have hreached := (hle hlevel).1 le_rfl
  refine ⟨hfinite, Nat.le_antisymm ?_ ?_⟩
  · by_contra hlt
    exact hlt ((hle (by omega)).2 ((hwon 0 (Nat.zero_le 1)).2 hk.1))
  · -- the level is `2 * i` or `2 * i + 1`, and `i` exchanges tell the processes apart
    have hsplit := Nat.div_add_mod (contest.level n).toNat 2
    have hmod := Nat.mod_lt (contest.level n).toNat (show 0 < 2 by decide)
    rw [← hsplit, hwon _ (by omega)] at hreached
    have hleast := hk.2 hreached
    omega

theorem even_level_of_pair (h : contest.IsSolved attacker defender)
    (hn : contest.arena.position? n = some (.pair x y))
    (hfinite : contest.level n ≠ .infinity) : Even (contest.level n).toNat := by
  rcases contest.lts.alike_or_exists_isLeast attacker defender x y with hall | ⟨k, hk⟩
  · exact absurd (h.level_eq_infinity_of_alike hn hall) hfinite
  · rw [(h.level_eq_two_mul_of_isLeast hn hk).2]
    exact even_two_mul k

theorem level_eq_infinity_iff_of_hyperedges (h : contest.IsSolved attacker defender)
    {answers : Hyperedge} (hedges : contest.arena.hyperedges n = [answers]) :
    contest.level n = .infinity ↔ ∃ answer ∈ answers, contest.level answer = .infinity := by
  constructor
  · intro hn
    refine h.isExact.exists_target_eq_infinity hn ?_
    rw [← Arena.hyperedges, hedges]
    exact List.mem_singleton_self answers
  · rintro ⟨answer, hanswer, hinfinity⟩
    by_contra hfinite
    obtain ⟨edge, hedge, hlower⟩ := h.isExact.exists_edge_lt hfinite
    rw [← Arena.hyperedges, hedges, List.mem_singleton] at hedge
    have hlt := hlower answer (hedge ▸ hanswer)
    rw [show contest.ranking.level answer = .infinity from hinfinity] at hlt
    exact Level.not_infinity_lt _ hlt

theorem toNat_level_eq_of_hyperedges (h : contest.IsSolved attacker defender)
    {answers : Hyperedge} (hedges : contest.arena.hyperedges n = [answers])
    (hfinite : contest.level n ≠ .infinity) :
    (contest.level n).toNat =
      (answers.map fun answer => (contest.level answer).toNat).foldr max 0 + 1 := by
  obtain ⟨edge, hedge, hlevel⟩ := h.isExact.exists_toNat_eq_highest_succ hfinite
  rw [← Arena.hyperedges, hedges, List.mem_singleton] at hedge
  rw [hedge] at hlevel
  exact hlevel

theorem even_foldr_max {values : List Nat} (h : ∀ value ∈ values, Even value) :
    Even (values.foldr max 0) := by
  induction values with
  | nil => exact Even.zero
  | cons value rest ih =>
      rw [List.foldr_cons]
      rcases max_choice value (rest.foldr max 0) with hmax | hmax
      · rw [hmax]
        exact h value List.mem_cons_self
      · rw [hmax]
        exact ih fun other hother => h other (List.mem_cons_of_mem _ hother)

theorem odd_level_of_attack (h : contest.IsSolved attacker defender) {position : Position}
    (hn : contest.arena.position? n = some position) (hattack : position.isPair = false)
    (hfinite : contest.level n ≠ .infinity) : Odd (contest.level n).toNat := by
  obtain ⟨answers, hedges, hanswers⟩ := h.isComplete.targets_of_attack hn hattack
  rw [h.toNat_level_eq_of_hyperedges hedges hfinite]
  refine (even_foldr_max fun value hvalue => ?_).add_one
  obtain ⟨answer, hanswer, rfl⟩ := List.mem_map.1 hvalue
  obtain ⟨pair, hmem, hposition⟩ := Arena.IsComplete.exists_successor hanswers hanswer
  have hpair := Position.isPair_of_mem_successors _ _ _ _ hmem
  have hbelow : contest.level answer ≠ .infinity := fun hinfinity =>
    hfinite ((h.level_eq_infinity_iff_of_hyperedges hedges).2 ⟨answer, hanswer, hinfinity⟩)
  rw [hattack] at hpair
  cases pair with
  | pair left right => exact h.even_level_of_pair hposition hbelow
  | leftAttack step right => simp [Position.isPair] at hpair
  | rightAttack left step => simp [Position.isPair] at hpair

theorem toNat_level_le (h : contest.IsSolved attacker defender)
    (hother : other.IsSolved attacker' defender')
    (hn : contest.arena.position? n = some (.pair x y))
    (hm : other.arena.position? m = some (.pair x' y'))
    (halike : ∀ k, contest.lts.Alike attacker defender k x y →
      other.lts.Alike attacker' defender' k x' y') :
    (contest.level n).toNat ≤ (other.level m).toNat := by
  rcases other.lts.alike_or_exists_isLeast attacker' defender' x' y' with hall | ⟨k', hk'⟩
  · rw [hother.level_eq_infinity_of_alike hm hall, Level.toNat_infinity]
    exact Nat.le_of_lt_succ (contest.level n).toNat_lt
  · have hapart : ¬ contest.lts.Alike attacker defender k' x y :=
      fun hk => hk'.1 (halike k' hk)
    rcases contest.lts.alike_or_exists_isLeast attacker defender x y with hall | ⟨k, hk⟩
    · exact absurd (hall k') hapart
    · rw [(h.level_eq_two_mul_of_isLeast hn hk).2,
        (hother.level_eq_two_mul_of_isLeast hm hk').2]
      exact Nat.mul_le_mul_left 2 (hk.2 hapart)

theorem level_eq_level (h : contest.IsSolved attacker defender)
    (hother : other.IsSolved attacker defender) (hlts : other.lts = contest.lts)
    (hn : contest.arena.position? n = some (.pair x y))
    (hm : other.arena.position? m = some (.pair x y)) :
    contest.level n = other.level m := by
  have hle := h.toNat_level_le hother hn hm fun k hk => by rwa [hlts]
  have hge := hother.toNat_level_le h hm hn fun k hk => by rwa [hlts] at hk
  exact Level.toNat_inj.1 (Nat.le_antisymm hle hge)

end Contest.IsSolved

namespace Contest

theorem exists_eq_ofProcesses {lts : TransitionSystem} {attacker defender : Semantics}
    {left right : String} {contest : Contest}
    (h : ofNames lts attacker defender left right = .ok contest) :
    ∃ p q, contest = ofProcesses lts attacker defender p q :=
  ⟨_, _, (of_ofNames_eq_ok h).2.2⟩

/-- The levels of a contest of two named processes count the exchanges that tell processes
apart. The level of a pair is twice the least number of exchanges that do, and infinity
when none does; that of an attack is one more than the largest of its answers, which lead
to the pairs that the steps of the defender make. The level of a pair is the same in every
contest that comes upon it. -/
theorem level_ofNames_counts_exchanges (lts : TransitionSystem)
    (attacker defender : Semantics) (left right : String) (p q : ProcessId)
    (hleft : lts.process? left = some p) (hright : lts.process? right = some q) :
    ∃ contest, ofNames lts attacker defender left right = .ok contest ∧
      (contest.arena.size < 0xFFFFFFFF →
        (∀ n x y, contest.arena.position? n = some (.pair x y) →
          (∀ k, IsLeast {k | ¬ lts.Alike attacker defender k x y} k →
            contest.level n ≠ .infinity ∧ (contest.level n).toNat = 2 * k) ∧
          ((∀ k, lts.Alike attacker defender k x y) → contest.level n = .infinity) ∧
          (contest.level n ≠ .infinity → Even (contest.level n).toNat) ∧
          (∀ otherLeft otherRight other m,
            ofNames lts attacker defender otherLeft otherRight = .ok other →
            other.arena.size < 0xFFFFFFFF →
            other.arena.position? m = some (.pair x y) →
            contest.level n = other.level m)) ∧
        (∀ n position, contest.arena.position? n = some position →
          position.isPair = false →
          ∃ answers : List NodeId, contest.arena.hyperedges n = [answers] ∧
            answers.map contest.arena.position? =
              (position.successors (lts.steps attacker) (lts.steps defender)).map some ∧
            (contest.level n = .infinity ↔
              ∃ answer ∈ answers, contest.level answer = .infinity) ∧
            (contest.level n ≠ .infinity →
              (contest.level n).toNat =
                (answers.map fun answer => (contest.level answer).toNat).foldr max 0 + 1 ∧
              Odd (contest.level n).toNat))) := by
  refine ⟨_, ofNames_eq_ok lts attacker defender left right p q hleft hright, ?_⟩
  intro hsize
  have hsolved := isSolved_ofProcesses lts attacker defender p q hsize
  constructor
  · intro n x y hn
    refine ⟨fun k => hsolved.level_eq_two_mul_of_isLeast hn,
      hsolved.level_eq_infinity_of_alike hn, hsolved.even_level_of_pair hn, ?_⟩
    intro otherLeft otherRight other m hother hothersize hm
    obtain ⟨r, s, rfl⟩ := exists_eq_ofProcesses hother
    exact hsolved.level_eq_level
      (isSolved_ofProcesses lts attacker defender r s hothersize) rfl hn hm
  · intro n position hn hattack
    obtain ⟨answers, hedges, hanswers⟩ := hsolved.isComplete.targets_of_attack hn hattack
    exact ⟨answers, hedges, hanswers, hsolved.level_eq_infinity_iff_of_hyperedges hedges,
      fun hfinite => ⟨hsolved.toNat_level_eq_of_hyperedges hedges hfinite,
        hsolved.odd_level_of_attack hn hattack hfinite⟩⟩

theorem level_turns_counts_exchanges :
    ∃ contest, ofNames turns .strong .strong "X" "Z" = .ok contest ∧
      contest.level .root = .ofRound 4 ∧
      IsLeast {k | ¬ turns.Alike .strong .strong k (.ofIndex 0) (.ofIndex 2)} 2 := by
  obtain ⟨hleft, _, hright⟩ := process?_turns
  obtain ⟨contest, hcontest, hcounts⟩ :=
    level_ofNames_counts_exchanges turns .strong .strong "X" "Z" _ _ hleft hright
  have heq := ofNames_eq_ok turns .strong .strong "X" "Z" _ _ hleft hright
  obtain rfl := Except.ok.inj (hcontest.symm.trans heq)
  have hroot := (isSolved_ofProcesses turns .strong .strong (.ofIndex 0) (.ofIndex 2)
    (size_arena_turns_lt _ _ _ _)).isComplete.root_eq
  have hlevel : (ofProcesses turns .strong .strong (.ofIndex 0) (.ofIndex 2)).level .root =
      .ofRound 4 := by
    rw [level, ranking_ofProcesses]
    decide +kernel
  obtain ⟨hleast, hnever, _⟩ := (hcounts (size_arena_turns_lt _ _ _ _)).1 .root _ _ hroot
  refine ⟨_, heq, hlevel, ?_⟩
  rcases turns.alike_or_exists_isLeast .strong .strong (.ofIndex 0) (.ofIndex 2)
    with hall | ⟨k, hk⟩
  · rw [hnever hall] at hlevel
    exact absurd hlevel (by decide)
  · have htwice := (hleast k hk).2
    rw [hlevel, show (Level.ofRound 4).toNat = 4 by decide] at htwice
    obtain rfl : k = 2 := by omega
    exact hk

end Contest

end BisimPlay
