import BisimPlay.Proofs.Arena.Courses
import BisimPlay.Proofs.Arena.Layout

/-!
# The moves in an arena

What a role may do at a position is laid down by the steps of the two processes: the plies
of the role. The moves in an arena are found by way of the nodes that the hyperedges lead
to, and a move does not say which step it takes nor where it leads. In a complete arena they
are the plies all the same, one for one and in order (`IsComplete.map_ply?_moves`).
-/

namespace BisimPlay

/-- A step on one side, and the position that it leads to. -/
structure Ply where
  side : Side
  step : Transition
  next : Position
deriving DecidableEq

/-- What a role may do at a position. The attacker takes a step on the left or on the right
of a pair. The defender answers an attack on the other side, with the same action. -/
def Position.plies (attacks answers : ProcessId → List Transition) :
    Role → Position → List Ply
  | .attacker, pair left right =>
    (attacks left).map (fun step => ⟨.left, step, leftAttack step right⟩) ++
      (attacks right).map (fun step => ⟨.right, step, rightAttack left step⟩)
  | .defender, leftAttack step right =>
    ((answers right).filter (·.action = step.action)).map fun answer =>
      ⟨.right, answer, pair step.target answer.target⟩
  | .defender, rightAttack left step =>
    ((answers left).filter (·.action = step.action)).map fun answer =>
      ⟨.left, answer, pair answer.target step.target⟩
  | _, _ => []

namespace Arena

variable {attacks answers : ProcessId → List Transition} {root position : Position}
  {arena : Arena} {n : NodeId} {role : Role}

/-- What a move does: the step that it takes, and the position of the node that it leads
to. -/
def ply? (arena : Arena) (move : Move) : Option Ply :=
  (arena.position? move.next).map fun next => ⟨move.side, ⟨move.action, move.target⟩, next⟩

/-- Moves that enter the targets of a node are plies, when the targets stand for what the
plies lead to and each of them is entered as its ply says. -/
theorem map_ply?_filterMap {enter? : NodeId → Option Move} {targets : List NodeId}
    {plies : List Ply} (htargets : targets.map arena.position? = plies.map (some ·.next))
    (henter : ∀ ply ∈ plies, ∀ target, arena.position? target = some ply.next →
      enter? target = some ⟨ply.step.target, target, ply.step.action, ply.side⟩) :
    (targets.filterMap enter?).map arena.ply? = plies.map some := by
  induction plies generalizing targets with
  | nil =>
      rw [List.map_nil, List.map_eq_nil_iff] at htargets
      rw [htargets]
      rfl
  | cons ply rest ih =>
      rw [List.map_cons, List.map_eq_cons_iff] at htargets
      obtain ⟨target, others, rfl, htarget, hothers⟩ := htargets
      have hrest := ih hothers fun other hother => henter other (List.mem_cons_of_mem _ hother)
      rw [List.filterMap_cons_some (henter ply List.mem_cons_self target htarget),
        List.map_cons, hrest, List.map_cons, ply?, htarget]
      rfl

theorem map_next_plies_of_pair (left right : ProcessId) :
    ((Position.pair left right).plies attacks answers .attacker).map (·.next) =
      (Position.pair left right).successors attacks answers := by
  rw [Position.plies, Position.successors, List.map_append, List.map_map, List.map_map]
  rfl

theorem map_next_plies_of_attack (hattack : position.isPair = false) :
    (position.plies attacks answers .defender).map (·.next) =
      position.successors attacks answers := by
  cases position with
  | pair left right => simp [Position.isPair] at hattack
  | leftAttack step right => simp [Position.plies, Position.successors, Position.answersTo]
  | rightAttack left step => simp [Position.plies, Position.successors, Position.answersTo]

theorem attack?_of_mem_plies {left right : ProcessId} {ply : Ply}
    (hply : ply ∈ (Position.pair left right).plies attacks answers .attacker)
    {target : NodeId} (ht : arena.position? target = some ply.next) :
    arena.attack? target = some ⟨ply.step.target, target, ply.step.action, ply.side⟩ := by
  rcases List.mem_append.1 hply with hleft | hright
  · obtain ⟨step, _, rfl⟩ := List.mem_map.1 hleft
    simp [attack?, ht]
  · obtain ⟨step, _, rfl⟩ := List.mem_map.1 hright
    simp [attack?, ht]

theorem IsComplete.map_ply?_moves (h : arena.IsComplete attacks answers root)
    (hn : arena.position? n = some position) :
    (arena.moves n role).map arena.ply? = (position.plies attacks answers role).map some := by
  have htargets := h.map_position?_targets hn
  -- the plies of the role that is to move are what follows, and the other role has none
  cases position with
  | pair left right =>
      cases role with
      | attacker =>
          rw [← map_next_plies_of_pair, List.map_map] at htargets
          simp only [moves, attackerMoves, hn]
          exact map_ply?_filterMap htargets fun ply hply target ht => attack?_of_mem_plies hply ht
      | defender => simp [moves, defenderMoves, hn, Position.plies]
  | leftAttack step right =>
      cases role with
      | attacker => simp [moves, attackerMoves, hn, Position.plies]
      | defender =>
          rw [← map_next_plies_of_attack rfl, List.map_map] at htargets
          simp only [moves, defenderMoves, hn]
          refine map_ply?_filterMap htargets fun ply hply target ht => ?_
          obtain ⟨answer, hanswer, rfl⟩ := List.mem_map.1 hply
          have haction : answer.action = step.action := by simpa using (List.mem_filter.1 hanswer).2
          simp [answer?, ht, haction]
  | rightAttack left step =>
      cases role with
      | attacker => simp [moves, attackerMoves, hn, Position.plies]
      | defender =>
          rw [← map_next_plies_of_attack rfl, List.map_map] at htargets
          simp only [moves, defenderMoves, hn]
          refine map_ply?_filterMap htargets fun ply hply target ht => ?_
          obtain ⟨answer, hanswer, rfl⟩ := List.mem_map.1 hply
          have haction : answer.action = step.action := by simpa using (List.mem_filter.1 hanswer).2
          simp [answer?, ht, haction]

/-- The moves of a role in the arena of two processes. A role has none where it is not to
move, in particular at a number that is no node, so the two roles never have moves at one
node. As long as node numbers do not repeat, the moves at a node are the plies at its
position, one for one and in order, and each replaces the process on its side. -/
theorem moves_ofPair (lts : TransitionSystem) (attacker defender : Semantics)
    (left right : ProcessId) (n : NodeId) (role : Role) :
    let arena := ofPair lts attacker defender left right
    (arena.turn? n ≠ some role → arena.moves n role = []) ∧
    (arena.moves n role = [] ∨ arena.moves n role.opponent = []) ∧
    (arena.size ≤ 0x100000000 →
      (∀ position, arena.position? n = some position →
        (arena.moves n role).map arena.ply? =
          (position.plies (lts.steps attacker) (lts.steps defender) role).map some) ∧
      ∀ move ∈ arena.moves n role, ∃ processes, arena.processes? n = some processes ∧
        arena.processes? move.next = some (move.update processes)) := by
  intro arena
  have hturn (role : Role) (h : arena.turn? n ≠ some role) : arena.moves n role = [] :=
    List.eq_nil_iff_forall_not_mem.2 fun move hmove => h (turn?_of_mem_moves hmove)
  refine ⟨hturn role, ?_, fun hsize => ?_⟩
  · by_cases h : arena.turn? n = some role
    · refine .inr (hturn role.opponent fun hopponent => ?_)
      exact role.opponent_ne (Option.some.inj (hopponent.symm.trans h))
    · exact .inl (hturn role h)
  · have harena : arena = ofSteps lts attacker defender left right := ofPair_eq ..
    have hcomplete := isComplete_ofSteps lts attacker defender left right (harena ▸ hsize)
    rw [← harena] at hcomplete
    refine ⟨fun position hn => hcomplete.map_ply?_moves hn, fun move hmove => ?_⟩
    obtain ⟨position, hn, _⟩ := Option.map_eq_some_iff.1 (turn?_of_mem_moves hmove)
    have hprocesses : arena.processes? n = some position.processes :=
      congrArg (Option.map Position.processes) hn
    exact ⟨_, hprocesses, hcomplete.processes?_next hmove hprocesses⟩

theorem moves_ofPair_doubled :
    let arena := ofPair doubled .strong .weak (.ofIndex 0) (.ofIndex 0)
    let attack : Move := ⟨.ofIndex 1, .ofIndex 3, ⟨"b"⟩, .left⟩
    arena.moves .root .defender = [] ∧ arena.size ≤ 0x100000000 ∧
    (arena.moves .root .attacker).map arena.ply? =
      ((Position.pair (.ofIndex 0) (.ofIndex 0)).plies (doubled.steps .strong)
        (doubled.steps .weak) .attacker).map some ∧
    attack ∈ arena.moves .root .attacker ∧
    ∃ processes, arena.processes? .root = some processes ∧
      arena.processes? (.ofIndex 3) = some (attack.update processes) := by
  intro arena attack
  have harena : arena = ofSteps doubled .strong .weak _ _ := ofPair_eq ..
  have hroot : arena.position? .root = some (.pair (.ofIndex 0) (.ofIndex 0)) := by
    rw [harena]
    decide +kernel
  have hattack : attack ∈ arena.moves .root .attacker := by
    rw [harena]
    decide +kernel
  have hsize : arena.size ≤ 0x100000000 := by
    rw [size_ofPair_doubled]
    decide
  have hturn : arena.turn? .root ≠ some .defender := by
    rw [turn?, hroot]
    decide
  obtain ⟨_, _, hmoves⟩ := moves_ofPair doubled .strong .weak _ _ .root .attacker
  obtain ⟨hplies, hprocesses⟩ := hmoves hsize
  exact ⟨(moves_ofPair doubled .strong .weak _ _ .root .defender).1 hturn, hsize,
    hplies _ hroot, hattack, hprocesses attack hattack⟩

end Arena

end BisimPlay
