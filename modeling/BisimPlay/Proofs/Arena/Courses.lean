import BisimPlay.Game.Turn
import BisimPlay.Proofs.Arena.Plays
import Mathlib.Data.List.Induction

/-!
# Courses

A course is what has been played on an arena from its root: the moves in order with the role
that made each, and the node that has been reached. Nothing is asked of a move but that the
role had it where it was made.

A turn remembers the action and the side of the last move. It does not look at either when
the defender moves, and has them right all the same: a defence follows an attack, and it has
the action of the attack and is made on the other side (`Course.remembers`). The processes
of the node that has been reached are those of the root, with each move replacing the one
on its side (`Course.processes?_eq`).
-/

namespace BisimPlay

/-- The two processes after a move, which replaces the one on its side. -/
def Move.update (move : Move) (processes : ProcessId × ProcessId) : ProcessId × ProcessId :=
  match move.side with
  | .left => (move.target, processes.2)
  | .right => (processes.1, move.target)

namespace Arena

variable {arena : Arena} {n target : NodeId} {role : Role} {move attack answer : Move}
  {action : Action} {side : Side} {plays : List (Role × Move)}

theorem next_of_attack?_eq_some (h : arena.attack? target = some move) :
    move.next = target := by
  unfold attack? at h
  split at h
  · rw [← Option.some.inj h]
  · rw [← Option.some.inj h]
  · exact absurd h (by simp)

theorem of_answer?_eq_some (h : arena.answer? action side target = some move) :
    move.action = action ∧ move.side = side ∧ move.next = target := by
  unfold answer? at h
  split at h
  · obtain rfl := Option.some.inj h
    exact ⟨rfl, rfl, rfl⟩
  · obtain rfl := Option.some.inj h
    exact ⟨rfl, rfl, rfl⟩
  · exact absurd h (by simp)

theorem attack?_next (h : move ∈ arena.moves n .attacker) :
    arena.attack? move.next = some move := by
  have hmove : move ∈ arena.attackerMoves n := h
  unfold attackerMoves at hmove
  split at hmove
  · obtain ⟨target, _, htarget⟩ := List.mem_filterMap.1 hmove
    rwa [next_of_attack?_eq_some htarget]
  · exact absurd hmove List.not_mem_nil

/-- A defence has the action of the attack that it answers, and is made on the other side. -/
theorem answer_of_attack?_eq_some (hattack : arena.attack? n = some attack)
    (hanswer : answer ∈ arena.moves n .defender) :
    answer.action = attack.action ∧ answer.side = attack.side.flip := by
  have hmove : answer ∈ arena.defenderMoves n := hanswer
  unfold attack? at hattack
  split at hattack
  · next step right hn =>
      obtain rfl := Option.some.inj hattack
      simp only [defenderMoves, hn] at hmove
      obtain ⟨target, _, htarget⟩ := List.mem_filterMap.1 hmove
      obtain ⟨haction, hside, _⟩ := of_answer?_eq_some htarget
      exact ⟨haction, hside⟩
  · next left step hn =>
      obtain rfl := Option.some.inj hattack
      simp only [defenderMoves, hn] at hmove
      obtain ⟨target, _, htarget⟩ := List.mem_filterMap.1 hmove
      obtain ⟨haction, hside, _⟩ := of_answer?_eq_some htarget
      exact ⟨haction, hside⟩
  · exact absurd hattack (by simp)

section Processes

variable {attacks answers : ProcessId → List Transition} {root position successor : Position}
  {left right : ProcessId} {step : Transition}

theorem processes_eq_of_attack? (hreached : arena.position? target = some successor)
    (hsuccessor : successor ∈ (Position.pair left right).successors attacks answers)
    (hattack : arena.attack? target = some move) :
    successor.processes = move.update (left, right) := by
  rcases List.mem_append.1 hsuccessor with hleft | hright
  · obtain ⟨step, _, rfl⟩ := List.mem_map.1 hleft
    simp only [attack?, hreached, Option.some.injEq] at hattack
    rw [← hattack]
    rfl
  · obtain ⟨step, _, rfl⟩ := List.mem_map.1 hright
    simp only [attack?, hreached, Option.some.injEq] at hattack
    rw [← hattack]
    rfl

theorem processes_eq_of_answer?_right (hreached : arena.position? target = some successor)
    (hsuccessor : successor ∈ (Position.leftAttack step right).successors attacks answers)
    (hanswer : arena.answer? action .right target = some move) :
    successor.processes = move.update (step.target, right) := by
  obtain ⟨answer, _, rfl⟩ := List.mem_map.1 hsuccessor
  simp only [answer?, hreached, Option.some.injEq] at hanswer
  rw [← hanswer]
  rfl

theorem processes_eq_of_answer?_left (hreached : arena.position? target = some successor)
    (hsuccessor : successor ∈ (Position.rightAttack left step).successors attacks answers)
    (hanswer : arena.answer? action .left target = some move) :
    successor.processes = move.update (left, step.target) := by
  obtain ⟨answer, _, rfl⟩ := List.mem_map.1 hsuccessor
  simp only [answer?, hreached, Option.some.injEq] at hanswer
  rw [← hanswer]
  rfl

theorem IsComplete.exists_of_mem_filterMap (h : arena.IsComplete attacks answers root)
    (hn : arena.position? n = some position) {enter? : NodeId → Option Move}
    (hmove : move ∈ (arena.hyperedges n).flatten.filterMap enter?) :
    ∃ target successor, enter? target = some move ∧
      successor ∈ position.successors attacks answers ∧
        arena.position? target = some successor := by
  obtain ⟨target, htarget, henter⟩ := List.mem_filterMap.1 hmove
  obtain ⟨successor, hsuccessor, hreached⟩ :=
    exists_successor (h.map_position?_targets hn) htarget
  exact ⟨target, successor, henter, hsuccessor, hreached⟩

/-- A move in a complete arena replaces the process on its side, and leaves the other. -/
theorem IsComplete.processes?_next (h : arena.IsComplete attacks answers root)
    (hmove : move ∈ arena.moves n role) {processes : ProcessId × ProcessId}
    (hn : arena.processes? n = some processes) :
    arena.processes? move.next = some (move.update processes) := by
  obtain ⟨position, hposition, rfl⟩ := Option.map_eq_some_iff.1 hn
  rw [processes?, Option.map_eq_some_iff]
  cases position with
  | pair left right =>
      cases role with
      | attacker =>
          simp only [moves, attackerMoves, hposition] at hmove
          obtain ⟨target, successor, hattack, hsuccessor, hreached⟩ :=
            h.exists_of_mem_filterMap hposition hmove
          rw [next_of_attack?_eq_some hattack]
          exact ⟨successor, hreached, processes_eq_of_attack? hreached hsuccessor hattack⟩
      | defender =>
          rw [moves, arena.defenderMoves_of_pair n left right hposition] at hmove
          exact absurd hmove List.not_mem_nil
  | leftAttack step right =>
      cases role with
      | attacker => simp [moves, attackerMoves, hposition] at hmove
      | defender =>
          simp only [moves, defenderMoves, hposition] at hmove
          obtain ⟨target, successor, hanswer, hsuccessor, hreached⟩ :=
            h.exists_of_mem_filterMap hposition hmove
          obtain ⟨_, _, hnext⟩ := of_answer?_eq_some hanswer
          rw [hnext]
          exact ⟨successor, hreached, processes_eq_of_answer?_right hreached hsuccessor hanswer⟩
  | rightAttack left step =>
      cases role with
      | attacker => simp [moves, attackerMoves, hposition] at hmove
      | defender =>
          simp only [moves, defenderMoves, hposition] at hmove
          obtain ⟨target, successor, hanswer, hsuccessor, hreached⟩ :=
            h.exists_of_mem_filterMap hposition hmove
          obtain ⟨_, _, hnext⟩ := of_answer?_eq_some hanswer
          rw [hnext]
          exact ⟨successor, hreached, processes_eq_of_answer?_left hreached hsuccessor hanswer⟩

end Processes

/-- What has been played from the root, and the node that it has led to. -/
inductive Course (arena : Arena) : List (Role × Move) → NodeId → Prop
  | start : Course arena [] .root
  | move {plays : List (Role × Move)} {n : NodeId} {role : Role} {move : Move}
      (before : Course arena plays n) (hmove : move ∈ arena.moves n role) :
      Course arena (plays ++ [(role, move)]) move.next

theorem course_replay (plays : List (Role × Move))
    (h : ∀ before role move after, plays = before ++ (role, move) :: after →
      move ∈ arena.moves ((Turn.first .root).replay before).node role) :
    arena.Course plays ((Turn.first .root).replay plays).node := by
  induction plays using List.reverseRecOn with
  | nil => exact .start
  | append_singleton before last ih =>
      obtain ⟨role, move⟩ := last
      rw [Turn.replay_append]
      have hbefore : arena.Course before ((Turn.first .root).replay before).node :=
        ih fun earlier other made after hsplit =>
          h earlier other made (after ++ [(role, move)]) (by simp [hsplit])
      have hcourse := hbefore.move (h before role move [] rfl)
      rwa [← Turn.node_advance _ role move] at hcourse

namespace Course

/-- A course is a play in which both roles are free. -/
theorem play (h : arena.Course plays n) :
    arena.Play .free .free .root (plays.map (·.2)) n := by
  induction h with
  | start => exact .start
  | @move plays n role move _ hmove ih =>
      rw [List.map_append]
      cases role with
      | attacker => exact ih.attack (turn?_of_mem_moves hmove) hmove trivial
      | defender => exact ih.answer (turn?_of_mem_moves hmove) hmove trivial

theorem exists_attack (h : arena.Course plays n) (hroot : arena.turn? .root = some .attacker)
    (hturn : arena.turn? n = some .defender) :
    ∃ before attack, plays = before ++ [(.attacker, attack)] ∧ arena.attack? n = some attack := by
  cases h with
  | start => exact absurd (hroot.symm.trans hturn) (by simp)
  | @move before m role attack _ hmove =>
      cases role with
      | attacker => exact ⟨before, attack, rfl, attack?_next hmove⟩
      | defender => exact absurd ((turn?_next hmove).symm.trans hturn) (by simp [Role.opponent])

theorem exists_attack_of_mem_moves (h : arena.Course plays n)
    (hroot : arena.turn? .root = some .attacker) (hanswer : answer ∈ arena.moves n .defender) :
    ∃ before attack, plays = before ++ [(.attacker, attack)] ∧
      answer.action = attack.action ∧ answer.side = attack.side.flip := by
  obtain ⟨before, attack, hplays, hattack⟩ := h.exists_attack hroot (turn?_of_mem_moves hanswer)
  exact ⟨before, attack, hplays, answer_of_attack?_eq_some hattack hanswer⟩

theorem exists_attack_of_replay {before after : List (Role × Move)} {defence : Move}
    (hmoves : ∀ earlier role move later, plays = earlier ++ (role, move) :: later →
      move ∈ arena.moves ((Turn.first .root).replay earlier).node role)
    (hroot : arena.turn? .root = some .attacker)
    (hplays : plays = before ++ (.defender, defence) :: after) :
    ∃ earlier attack, before = earlier ++ [(.attacker, attack)] ∧
      defence.action = attack.action ∧ defence.side = attack.side.flip := by
  have hbefore : arena.Course before ((Turn.first .root).replay before).node := by
    refine course_replay before fun earlier role move later hsplit => ?_
    refine hmoves earlier role move (later ++ (.defender, defence) :: after) ?_
    rw [hplays, hsplit, List.append_assoc, List.cons_append]
  exact hbefore.exists_attack_of_mem_moves hroot (hmoves before .defender defence after hplays)

theorem remembers (h : arena.Course plays n) (hroot : arena.turn? .root = some .attacker)
    (hlast : plays.getLast? = some (role, move)) :
    ((Turn.first .root).replay plays).lastSide = some move.side ∧
      ((Turn.first .root).replay plays).lastAction = some move.action := by
  induction h generalizing role move with
  | start => exact absurd hlast (by simp)
  | @move plays n made last hbefore hmove ih =>
      rw [List.getLast?_concat] at hlast
      obtain ⟨rfl, rfl⟩ := Prod.mk.inj (Option.some.inj hlast)
      rw [Turn.replay_append]
      cases made with
      | attacker => exact ⟨rfl, rfl⟩
      | defender =>
          obtain ⟨before, attack, rfl, haction, hside⟩ :=
            hbefore.exists_attack_of_mem_moves hroot hmove
          obtain ⟨hlastSide, hlastAction⟩ := ih List.getLast?_concat
          refine ⟨?_, ?_⟩
          · rw [hside]
            exact congrArg (Option.map Side.flip) hlastSide
          · rw [haction]
            exact hlastAction

theorem processes?_eq (h : arena.Course plays n) {attacks answers : ProcessId → List Transition}
    {root : Position} (hcomplete : arena.IsComplete attacks answers root) :
    arena.processes? n =
      some (plays.foldl (fun processes play => play.2.update processes) root.processes) := by
  induction h with
  | start => rw [processes?, hcomplete.root_eq, Option.map_some, List.foldl_nil]
  | move _ hmove ih =>
      rw [List.foldl_append]
      exact hcomplete.processes?_next hmove ih

end Course

end Arena

end BisimPlay
