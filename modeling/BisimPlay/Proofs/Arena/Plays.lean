import BisimPlay.Proofs.Arena.Completeness

/-!
# Plays

A play starts at a node and goes on by moves of the role that is to move, of the
attacker at pairs and of the defender at attacks. A policy says which of its moves a
role allows itself, after what has been played and at the node that has been reached. A
strategy is a policy that leaves one move; the policy that leaves all of them stands for
an arbitrary opponent.

In a complete arena the hyperedges of a node are read off from the moves there: a
hyperedge for each attack, and one hyperedge for all answers.
-/

namespace BisimPlay

/-- The moves that a role allows itself. -/
abbrev Policy := List Move → NodeId → Move → Prop

namespace Policy

def free : Policy := fun _ _ _ => True

def ofStrategy (strategy : List Move → NodeId → Move) : Policy :=
  fun history n move => move = strategy history n

end Policy

namespace Arena

def turn? (arena : Arena) (n : NodeId) : Option Role :=
  (arena.position? n).map fun position => if position.isPair then .attacker else .defender

def IsStuck (arena : Arena) (role : Role) (n : NodeId) : Prop :=
  arena.turn? n = some role ∧ arena.moves n role = []

/-- The plays from a node, with the moves made and the node reached, where attacks and
answers keep to a policy each. -/
inductive Play (arena : Arena) (attack answer : Policy) (start : NodeId) :
    List Move → NodeId → Prop
  | start : Play arena attack answer start [] start
  | attack {history : List Move} {n : NodeId} {move : Move}
      (before : Play arena attack answer start history n)
      (hturn : arena.turn? n = some .attacker) (hmove : move ∈ arena.moves n .attacker)
      (hallowed : attack history n move) :
      Play arena attack answer start (history ++ [move]) move.next
  | answer {history : List Move} {n : NodeId} {move : Move}
      (before : Play arena attack answer start history n)
      (hturn : arena.turn? n = some .defender) (hmove : move ∈ arena.moves n .defender)
      (hallowed : answer history n move) :
      Play arena attack answer start (history ++ [move]) move.next

def visited (start : NodeId) (history : List Move) : List NodeId :=
  start :: history.map (·.next)

@[simp] theorem visited_nil (start : NodeId) : visited start [] = [start] := rfl

@[simp] theorem visited_append_singleton (start : NodeId) (history : List Move)
    (move : Move) : visited start (history ++ [move]) = visited start history ++ [move.next] := by
  simp [visited]

variable {arena : Arena} {attack answer : Policy} {start n : NodeId} {role : Role}
  {move : Move} {history : List Move}

/-- Plays that are bounded in length, and that go on unless the defender is stuck, leave
the defender stuck at last. -/
theorem exists_play_isStuck {bound : Nat}
    (hbound : ∀ history n, arena.Play attack answer start history n →
      history.length ≤ bound)
    (hnext : ∀ history n, arena.Play attack answer start history n →
      arena.IsStuck .defender n ∨
        ∃ move, arena.Play attack answer start (history ++ [move]) move.next) :
    ∃ history n, arena.Play attack answer start history n ∧
      arena.IsStuck .defender n := by
  by_contra hnone
  push Not at hnone
  have hlong : ∀ k, ∃ history n, arena.Play attack answer start history n ∧
      history.length = k := by
    intro k
    induction k with
    | zero => exact ⟨[], start, .start, rfl⟩
    | succ k ih =>
        obtain ⟨history, n, hplay, hlength⟩ := ih
        rcases hnext history n hplay with hstuck | ⟨move, hlonger⟩
        · exact absurd hstuck (hnone history n hplay)
        · exact ⟨_, _, hlonger, by rw [List.length_append, hlength, List.length_singleton]⟩
  obtain ⟨history, n, hplay, hlength⟩ := hlong (bound + 1)
  have hle := hbound history n hplay
  omega

theorem turn?_eq_attacker_iff :
    arena.turn? n = some .attacker ↔
      ∃ left right, arena.position? n = some (.pair left right) := by
  cases hn : arena.position? n with
  | none => simp [turn?, hn]
  | some position => cases position <;> simp [turn?, hn, Position.isPair]

theorem turn?_eq_defender_iff :
    arena.turn? n = some .defender ↔
      ∃ position, arena.position? n = some position ∧ position.isPair = false := by
  cases hn : arena.position? n with
  | none => simp [turn?, hn]
  | some position => cases position <;> simp [turn?, hn, Position.isPair]

theorem turn?_of_mem_moves_defender {move : Move} (h : move ∈ arena.moves n .defender) :
    arena.turn? n = some .defender := by
  rw [turn?_eq_defender_iff]
  cases hn : arena.position? n with
  | none => simp [moves, defenderMoves, hn] at h
  | some position =>
      cases position with
      | pair left right => simp [moves, defenderMoves, hn] at h
      | leftAttack step right => exact ⟨_, rfl, rfl⟩
      | rightAttack left step => exact ⟨_, rfl, rfl⟩

theorem turn?_of_mem_moves (h : move ∈ arena.moves n role) : arena.turn? n = some role := by
  cases role with
  | attacker =>
      by_contra hturn
      have hnone : arena.moves n .attacker = [] :=
        arena.attackerMoves_eq_nil n fun left right hn =>
          hturn (turn?_eq_attacker_iff.2 ⟨left, right, hn⟩)
      rw [hnone] at h
      exact absurd h List.not_mem_nil
  | defender => exact turn?_of_mem_moves_defender h

theorem turn?_of_attack?_eq_some {target : NodeId} (h : arena.attack? target = some move) :
    arena.turn? move.next = some .defender := by
  unfold attack? at h
  split at h
  · next step right htarget =>
      obtain rfl := Option.some.inj h
      exact turn?_eq_defender_iff.2 ⟨_, htarget, rfl⟩
  · next left step htarget =>
      obtain rfl := Option.some.inj h
      exact turn?_eq_defender_iff.2 ⟨_, htarget, rfl⟩
  · exact absurd h (by simp)

theorem turn?_of_answer?_eq_some {action : Action} {side : Side} {target : NodeId}
    (h : arena.answer? action side target = some move) :
    arena.turn? move.next = some .attacker := by
  unfold answer? at h
  split at h
  · next p q htarget =>
      obtain rfl := Option.some.inj h
      exact turn?_eq_attacker_iff.2 ⟨p, q, htarget⟩
  · next p q htarget =>
      obtain rfl := Option.some.inj h
      exact turn?_eq_attacker_iff.2 ⟨p, q, htarget⟩
  · exact absurd h (by simp)

theorem turn?_next (h : move ∈ arena.moves n role) :
    arena.turn? move.next = some role.opponent := by
  cases role with
  | attacker =>
      have hmove : move ∈ arena.attackerMoves n := h
      unfold attackerMoves at hmove
      split at hmove
      · obtain ⟨target, _, htarget⟩ := List.mem_filterMap.1 hmove
        exact turn?_of_attack?_eq_some htarget
      · exact absurd hmove List.not_mem_nil
  | defender =>
      have hmove : move ∈ arena.defenderMoves n := h
      unfold defenderMoves at hmove
      split at hmove
      · obtain ⟨target, _, htarget⟩ := List.mem_filterMap.1 hmove
        exact turn?_of_answer?_eq_some htarget
      · obtain ⟨target, _, htarget⟩ := List.mem_filterMap.1 hmove
        exact turn?_of_answer?_eq_some htarget
      · exact absurd hmove List.not_mem_nil

/-- The roles take turns, and the one that begins is to move after every two moves. -/
theorem Play.turn?_and_length (hstart : arena.turn? start = some .attacker)
    (hplay : arena.Play attack answer start history n) :
    arena.turn? n = some .attacker ∧ history.length % 2 = 0 ∨
      arena.turn? n = some .defender ∧ history.length % 2 = 1 := by
  induction hplay with
  | start => exact .inl ⟨hstart, rfl⟩
  | attack _ hturn hmove _ ih =>
      rcases ih with ⟨_, heven⟩ | ⟨hother, _⟩
      · refine .inr ⟨turn?_next hmove, ?_⟩
        rw [List.length_append, List.length_singleton]
        omega
      · exact absurd (hturn.symm.trans hother) (by simp)
  | answer _ hturn hmove _ ih =>
      rcases ih with ⟨hother, _⟩ | ⟨_, hodd⟩
      · exact absurd (hturn.symm.trans hother) (by simp)
      · refine .inl ⟨turn?_next hmove, ?_⟩
        rw [List.length_append, List.length_singleton]
        omega

theorem Play.turn?_eq_some (hstart : arena.turn? start = some .attacker)
    (hplay : arena.Play attack answer start history n)
    (hrole : role = .attacker ↔ history.length % 2 = 0) : arena.turn? n = some role := by
  rcases hplay.turn?_and_length hstart with ⟨hturn, heven⟩ | ⟨hturn, hodd⟩
  · rw [hrole.2 heven]
    exact hturn
  · cases role with
    | attacker =>
        have heven := hrole.1 rfl
        omega
    | defender => exact hturn

theorem Play.extend {policy : Role → Policy}
    (hplay : arena.Play (policy .attacker) (policy .defender) start history n)
    (hmove : move ∈ arena.moves n role) (hallowed : policy role history n move) :
    arena.Play (policy .attacker) (policy .defender) start (history ++ [move]) move.next := by
  cases role with
  | attacker => exact hplay.attack (turn?_of_mem_moves hmove) hmove hallowed
  | defender => exact hplay.answer (turn?_of_mem_moves hmove) hmove hallowed

namespace IsComplete

variable {attacks answers : ProcessId → List Transition} {root : Position}

theorem mem_hyperedges_iff (h : arena.IsComplete attacks answers root)
    (hturn : arena.turn? n = some .attacker) (edge : Hyperedge) :
    edge ∈ arena.hypergraph.hyperedges n ↔
      ∃ move ∈ arena.moves n .attacker, [move.next] = edge := by
  obtain ⟨left, right, hn⟩ := turn?_eq_attacker_iff.1 hturn
  rw [← hyperedges, h.hyperedges_of_pair hn, List.mem_map]

theorem mem_hyperedges_iff_eq (h : arena.IsComplete attacks answers root)
    (hturn : arena.turn? n = some .defender) (edge : Hyperedge) :
    edge ∈ arena.hypergraph.hyperedges n ↔ edge = (arena.moves n .defender).map (·.next) := by
  obtain ⟨position, hn, hattack⟩ := turn?_eq_defender_iff.1 hturn
  rw [← hyperedges, h.hyperedges_of_attack hn hattack, List.mem_singleton]

end IsComplete

end Arena

end BisimPlay
