import BisimPlay.Proofs.Contest.Verdict
import Mathlib.Data.List.MinMax

/-!
# Selecting moves

The strategies of a contest may be asked about any list of moves. Moves may be listed more
than once, and a move may lead to a node that is not there, which is at infinity. Of a list
with moves the best attack is the first to the lowest level, if this level is below that of
the attacker's own node, and the first of all moves otherwise. The sound defence is the first
move to a node from which the attacker does not win, if there is one.

A lowest level is found by looking at the moves in turn and keeping the best so far
(`lowest?_eq_foldl`). `IsKept` says what is kept when some of the moves have been looked at;
one more look preserves it, and so do all that follow.
-/

namespace BisimPlay

namespace Contest

variable {contest : Contest} {n : NodeId} {ranking : Ranking} {bound level level' : Level}
  {p : Move → Prop} {seen moves : List Move} {move best first other : Move}
  {best? : Option Move} {fault : Fault}

def IsFirst (p : Move → Prop) (moves : List Move) (first : Move) : Prop :=
  p first ∧ ∃ before after, moves = before ++ first :: after ∧ ∀ earlier ∈ before, ¬ p earlier

theorem find?_eq_some_iff_isFirst [DecidablePred p] :
    (moves.find? fun move => p move) = some first ↔ IsFirst p moves first := by
  simp [List.find?_eq_some_iff_append, IsFirst]

theorem IsFirst.mem (h : IsFirst p moves first) : first ∈ moves := by
  obtain ⟨_, before, after, rfl, _⟩ := h
  simp

theorem IsFirst.unique (h : IsFirst p moves first) (h' : IsFirst p moves other) :
    first = other := by
  classical
  rw [← find?_eq_some_iff_isFirst] at h h'
  exact Option.some.inj (h.symm.trans h')

theorem IsFirst.append (h : IsFirst p seen first) (later : List Move) :
    IsFirst p (seen ++ later) first := by
  obtain ⟨hfirst, before, after, rfl, hbefore⟩ := h
  exact ⟨hfirst, before, after ++ later, by simp, hbefore⟩

theorem isFirst_append_singleton (hmove : p move) (h : ∀ earlier ∈ seen, ¬ p earlier) :
    IsFirst p (seen ++ [move]) move :=
  ⟨hmove, seen, [], rfl, h⟩

def IsLowestLevel (ranking : Ranking) (moves : List Move) (level : Level) : Prop :=
  (∃ move ∈ moves, ranking.level move.next = level) ∧
    ∀ move ∈ moves, level.toNat ≤ (ranking.level move.next).toNat

theorem IsLowestLevel.unique (h : IsLowestLevel ranking moves level)
    (h' : IsLowestLevel ranking moves level') : level = level' := by
  obtain ⟨⟨move, hmove, rfl⟩, hle⟩ := h
  obtain ⟨⟨other, hother, rfl⟩, hle'⟩ := h'
  exact Level.toNat_inj.1 (Nat.le_antisymm (hle other hother) (hle' move hmove))

theorem exists_isLowestLevel (ranking : Ranking) (h : moves ≠ []) :
    ∃ level, IsLowestLevel ranking moves level := by
  let key (move : Move) : Nat := (ranking.level move.next).toNat
  cases hleast : moves.argmin key with
  | none => exact absurd (List.argmin_eq_none.1 hleast) h
  | some lowest =>
      exact ⟨_, ⟨lowest, List.argmin_mem hleast, rfl⟩,
        fun move hmove => List.le_of_mem_argmin (f := key) hmove hleast⟩

theorem IsLowestLevel.append_singleton (h : IsLowestLevel ranking seen level)
    (hmove : level.toNat ≤ (ranking.level move.next).toNat) :
    IsLowestLevel ranking (seen ++ [move]) level := by
  obtain ⟨⟨lowest, hlowest, heq⟩, hle⟩ := h
  refine ⟨⟨lowest, List.mem_append_left _ hlowest, heq⟩, ?_⟩
  simpa [or_imp, forall_and, hmove] using hle

theorem isLowestLevel_append_lower
    (h : ∀ earlier ∈ seen,
      (ranking.level move.next).toNat ≤ (ranking.level earlier.next).toNat) :
    IsLowestLevel ranking (seen ++ [move]) (ranking.level move.next) := by
  refine ⟨⟨move, by simp, rfl⟩, ?_⟩
  simpa [or_imp, forall_and] using h

/-- A look at one more move. The move takes the place of the best so far when its level is
below the bound and below the level of the best so far. -/
def keepLower (ranking : Ranking) (bound : Level) (best? : Option Move) (move : Move) :
    Option Move :=
  if ranking.level move.next < bound ∧
      ∀ best ∈ best?, ranking.level move.next < ranking.level best.next then some move
  else best?

theorem lowest?_cons (ranking : Ranking) (bound : Level) (move : Move) (rest : List Move) :
    lowest? ranking bound (move :: rest) =
      if ranking.level move.next < bound then
        some ((lowest? ranking (ranking.level move.next) rest).getD move)
      else lowest? ranking bound rest := rfl

/-- What is kept is below the bound, so from then on its own level serves as the bound. -/
theorem foldl_keepLower_some (moves : List Move) (hbest : ranking.level best.next < bound) :
    moves.foldl (keepLower ranking bound) (some best) =
      some ((lowest? ranking (ranking.level best.next) moves).getD best) := by
  induction moves generalizing best with
  | nil => rfl
  | cons move rest ih =>
      rw [List.foldl_cons, lowest?_cons]
      by_cases hlower : ranking.level move.next < ranking.level best.next
      · have hmove : ranking.level move.next < bound := by
          rw [Level.lt_iff] at hlower hbest ⊢
          exact Nat.lt_trans hlower hbest
        simp [keepLower, hmove, hlower, ih hmove]
      · simp [keepLower, hlower, ih hbest]

theorem lowest?_eq_foldl (ranking : Ranking) (bound : Level) (moves : List Move) :
    lowest? ranking bound moves = moves.foldl (keepLower ranking bound) none := by
  induction moves with
  | nil => rfl
  | cons move rest ih =>
      rw [List.foldl_cons, lowest?_cons]
      by_cases hmove : ranking.level move.next < bound
      · simp [keepLower, hmove, foldl_keepLower_some rest hmove]
      · simp [keepLower, hmove, ih]

/-- What is kept when some moves have been looked at: nothing as long as none of them leads
below the bound, and then the first of them to the lowest level. -/
def IsKept (ranking : Ranking) (bound : Level) (seen : List Move) : Option Move → Prop
  | none => ∀ move ∈ seen, ¬ ranking.level move.next < bound
  | some best => ranking.level best.next < bound ∧
      IsLowestLevel ranking seen (ranking.level best.next) ∧
      IsFirst (fun move => ranking.level move.next = ranking.level best.next) seen best

theorem isKept_append_lower (hmove : ranking.level move.next < bound)
    (hlower : ∀ earlier ∈ seen, ranking.level move.next < ranking.level earlier.next) :
    IsKept ranking bound (seen ++ [move]) (some move) := by
  simp only [Level.lt_iff] at hlower
  refine ⟨hmove, ?_, ?_⟩
  · exact isLowestLevel_append_lower fun earlier hearlier =>
      Nat.le_of_lt (hlower earlier hearlier)
  · refine isFirst_append_singleton rfl fun earlier hearlier heq => ?_
    have hlt := hlower earlier hearlier
    rw [heq] at hlt
    exact Nat.lt_irrefl _ hlt

theorem IsKept.append_singleton (h : IsKept ranking bound seen best?) (move : Move) :
    IsKept ranking bound (seen ++ [move]) (keepLower ranking bound best? move) := by
  rw [keepLower]
  cases best? with
  | none =>
      split
      · next hmove =>
          refine isKept_append_lower hmove.1 fun earlier hearlier => ?_
          have hbound := h earlier hearlier
          have hlt := hmove.1
          rw [Level.lt_iff] at hbound hlt ⊢
          omega
      · next hmove =>
          have hbound : ¬ ranking.level move.next < bound := by simpa using hmove
          simpa [IsKept, or_imp, forall_and, hbound] using h
  | some best =>
      obtain ⟨hbest, hlowest, hfirst⟩ := h
      split
      · next hmove =>
          refine isKept_append_lower hmove.1 fun earlier hearlier => ?_
          have hle := hlowest.2 earlier hearlier
          have hlt := hmove.2 best rfl
          rw [Level.lt_iff] at hlt ⊢
          exact Nat.lt_of_lt_of_le hlt hle
      · next hmove =>
          -- The best so far is below the bound, so only its own level can have stood in the way.
          have hle : (ranking.level best.next).toNat ≤ (ranking.level move.next).toNat := by
            simp only [Option.mem_some_iff, forall_eq', Level.lt_iff] at hmove hbest
            omega
          exact ⟨hbest, hlowest.append_singleton hle, hfirst.append [move]⟩

theorem IsKept.append (h : IsKept ranking bound seen best?) (later : List Move) :
    IsKept ranking bound (seen ++ later) (later.foldl (keepLower ranking bound) best?) := by
  induction later generalizing seen best? with
  | nil => simpa using h
  | cons move rest ih => simpa using ih (h.append_singleton move)

theorem isKept_lowest? (ranking : Ranking) (bound : Level) (moves : List Move) :
    IsKept ranking bound moves (lowest? ranking bound moves) := by
  have hnone : IsKept ranking bound [] none := fun _ h => absurd h List.not_mem_nil
  rw [lowest?_eq_foldl]
  exact hnone.append moves

theorem of_lowest?_eq_some (h : lowest? ranking bound moves = some best) :
    best ∈ moves ∧ ranking.level best.next < bound := by
  have hkept := isKept_lowest? ranking bound moves
  rw [h] at hkept
  exact ⟨hkept.2.2.mem, hkept.1⟩

theorem lowest?_eq_none_iff (ranking : Ranking) (bound : Level) (moves : List Move) :
    lowest? ranking bound moves = none ↔
      ∀ move ∈ moves, ¬ ranking.level move.next < bound := by
  constructor
  · intro h
    have hkept := isKept_lowest? ranking bound moves
    rwa [h] at hkept
  · intro h
    cases hbest : lowest? ranking bound moves with
    | none => rfl
    | some best =>
        obtain ⟨hmem, hlt⟩ := of_lowest?_eq_some hbest
        exact absurd hlt (h best hmem)

/-- The move for an attacker to make at a node: of the moves to the lowest level the first,
if that level is below the level of the node, and of all moves the first otherwise. -/
def IsBestAttack (contest : Contest) (n : NodeId) (moves : List Move) (best : Move) : Prop :=
  ∃ level, IsLowestLevel contest.ranking moves level ∧
    if level < contest.level n then
      IsFirst (fun move => contest.level move.next = level) moves best
    else moves.head? = some best

theorem IsBestAttack.mem (h : contest.IsBestAttack n moves best) : best ∈ moves := by
  obtain ⟨level, _, hselected⟩ := h
  split at hselected
  · exact hselected.mem
  · exact List.mem_of_mem_head? hselected

theorem IsBestAttack.unique (h : contest.IsBestAttack n moves best)
    (h' : contest.IsBestAttack n moves other) : best = other := by
  obtain ⟨level, hlevel, hselected⟩ := h
  obtain ⟨level', hlevel', hselected'⟩ := h'
  obtain rfl := hlevel.unique hlevel'
  by_cases hlt : level < contest.level n
  · rw [if_pos hlt] at hselected hselected'
    exact hselected.unique hselected'
  · rw [if_neg hlt] at hselected hselected'
    exact Option.some.inj (hselected.symm.trans hselected')

theorem exists_isBestAttack (contest : Contest) (n : NodeId) (h : moves ≠ []) :
    ∃ best, contest.bestAttack n moves = .ok best ∧ contest.IsBestAttack n moves best := by
  obtain ⟨first, rest, rfl⟩ := List.exists_cons_of_ne_nil h
  have hkept := isKept_lowest? contest.ranking (contest.level n) (first :: rest)
  rw [bestAttack]
  cases hbest : lowest? contest.ranking (contest.level n) (first :: rest) with
  | none =>
      rw [hbest] at hkept
      obtain ⟨_, hlevel⟩ := exists_isLowestLevel contest.ranking h
      obtain ⟨move, hmove, rfl⟩ := hlevel.1
      exact ⟨first, rfl, _, hlevel, by rw [if_neg (hkept move hmove), List.head?_cons]⟩
  | some best =>
      rw [hbest] at hkept
      obtain ⟨hlt, hlevel, hfirst⟩ := hkept
      exact ⟨best, rfl, _, hlevel, by rwa [if_pos hlt]⟩

theorem bestAttack_eq_error_iff :
    contest.bestAttack n moves = .error fault ↔ moves = [] ∧ fault = .noChoices .attacker := by
  cases moves with
  | nil => simp [eq_comm]
  | cons first rest => simp [bestAttack]

theorem bestAttack_eq_ok_iff :
    contest.bestAttack n moves = .ok best ↔ contest.IsBestAttack n moves best := by
  constructor
  · intro h
    have hmoves : moves ≠ [] := by
      rintro rfl
      exact absurd h (by simp)
    obtain ⟨other, hother, hbest⟩ := exists_isBestAttack contest n hmoves
    rwa [Except.ok.inj (hother.symm.trans h)] at hbest
  · intro h
    obtain ⟨other, hother, hbest⟩ := exists_isBestAttack contest n (List.ne_nil_of_mem h.mem)
    rw [hother, h.unique hbest]

theorem soundDefence_eq_ok_iff :
    contest.soundDefence moves = .ok best ↔
      IsFirst (fun move => contest.ranking.marking move.next = .zero) moves best := by
  rw [← find?_eq_some_iff_isFirst]
  cases moves with
  | nil => simp
  | cons first rest =>
      rw [soundDefence]
      split
      · next found hfound => rw [hfound, Except.ok.injEq, Option.some.injEq]
      · next hnone => simp [hnone]

theorem find?_zero_eq_none_iff (ranking : Ranking) (moves : List Move) :
    (moves.find? fun move => ranking.marking move.next = .zero) = none ↔
      ∀ move ∈ moves, ranking.marking move.next = .one := by
  simp only [List.find?_eq_none, decide_eq_true_eq, Ranking.marking_eq_zero_iff,
    Ranking.marking_eq_one_iff, ne_eq]

theorem soundDefence_eq_error_iff :
    contest.soundDefence moves = .error fault ↔
      moves = [] ∧ fault = .noChoices .defender ∨
        moves ≠ [] ∧ (∀ move ∈ moves, contest.ranking.marking move.next = .one) ∧
          fault = .noWinningDefence := by
  rw [← find?_zero_eq_none_iff]
  cases moves with
  | nil => simp [eq_comm]
  | cons first rest =>
      rw [soundDefence]
      split
      · next found hfound => simp [hfound]
      · next hnone =>
          rw [hnone]
          simp [eq_comm]

/-- What the strategies make of any list of moves. The attack fails when the list is empty, for
want of a choice, and never else; it is the first move to the lowest level, provided that this
level is below that of the node, and the first of all moves otherwise. The defence fails when
the list is empty, for want of a choice, and when the attacker wins from wherever the moves
lead, for want of a winning answer; else it is the first move to a node from which the attacker
does not win. -/
theorem strategies_choose_first (contest : Contest) (n : NodeId) (moves : List Move) :
    (∀ fault, contest.rules.attack n moves = .error fault ↔
      moves = [] ∧ fault = .noChoices .attacker) ∧
    (∀ best, contest.rules.attack n moves = .ok best ↔
      ∃ level, IsLowestLevel contest.ranking moves level ∧
        if level < contest.level n then
          IsFirst (fun move => contest.level move.next = level) moves best
        else moves.head? = some best) ∧
    (∀ fault, contest.rules.defence n moves = .error fault ↔
      moves = [] ∧ fault = .noChoices .defender ∨
        moves ≠ [] ∧ (∀ move ∈ moves, contest.ranking.marking move.next = .one) ∧
          fault = .noWinningDefence) ∧
    (∀ best, contest.rules.defence n moves = .ok best ↔
      IsFirst (fun move => contest.ranking.marking move.next = .zero) moves best) :=
  ⟨fun _ => bestAttack_eq_error_iff, fun _ => bestAttack_eq_ok_iff,
    fun _ => soundDefence_eq_error_iff, fun _ => soundDefence_eq_ok_iff⟩

def leap (i : Nat) : Move := ⟨.ofIndex 0, .ofIndex i, ⟨"a"⟩, .left⟩

/-- Nodes 1 and 2 are at level 3, node 4 is at level 5 and there is no node 9. -/
theorem strategies_choose_first_turns :
    ∃ contest, ofNames turns .strong .strong "X" "Z" = .ok contest ∧
      contest.rules.attack .root [leap 4, leap 9, leap 1, leap 2, leap 1] = .ok (leap 1) ∧
      contest.rules.attack (.ofIndex 5) [leap 4, leap 9, leap 1] = .ok (leap 4) ∧
      contest.rules.defence (.ofIndex 1) [leap 4, leap 9, leap 1] = .ok (leap 9) ∧
      contest.rules.defence (.ofIndex 1) [leap 4, leap 1] = .error .noWinningDefence := by
  obtain ⟨hleft, _, hright⟩ := process?_turns
  refine ⟨_, ofNames_eq_ok turns .strong .strong "X" "Z" _ _ hleft hright, ?_⟩
  generalize hcontest : ofProcesses turns .strong .strong (.ofIndex 0) (.ofIndex 2) = contest
  have hranking : contest.ranking = ⟨#[.ofRound 4, .ofRound 3, .ofRound 3, .ofRound 2,
      .ofRound 5, .ofRound 1, .ofRound 5]⟩ := by
    rw [← hcontest, ranking_ofProcesses]
    decide +kernel
  obtain ⟨-, hattack, -, -⟩ := strategies_choose_first contest .root
    [leap 4, leap 9, leap 1, leap 2, leap 1]
  obtain ⟨-, hfallback, -, -⟩ := strategies_choose_first contest (.ofIndex 5)
    [leap 4, leap 9, leap 1]
  obtain ⟨-, -, -, hdefence⟩ := strategies_choose_first contest (.ofIndex 1)
    [leap 4, leap 9, leap 1]
  obtain ⟨-, -, hlost, -⟩ := strategies_choose_first contest (.ofIndex 1) [leap 4, leap 1]
  rw [hattack, hfallback, hdefence, hlost, hranking]
  unfold level IsFirst IsLowestLevel
  rw [hranking]
  refine ⟨⟨.ofRound 3, by decide, ?_⟩, ⟨.ofRound 3, by decide, ?_⟩, ?_, by decide⟩
  · exact ⟨by decide, [leap 4, leap 9], [leap 2, leap 1], by decide⟩
  · rfl
  · exact ⟨by decide, [leap 4], [leap 1], by decide⟩

end Contest

end BisimPlay
