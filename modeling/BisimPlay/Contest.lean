import BisimPlay.Arena.Moves
import BisimPlay.Game.Rules
import BisimPlay.Hypergraph.OpenNodes

/-!
# Contests

A contest is the bisimulation game of two processes with its arena laid out and
ranked. The processes are bisimilar when the attacker does not win from the root;
the winner of the contest is the defender in that case and the attacker otherwise.

The ranking tells the winner how to move. An attacker that wins plays to the lowest
level, which is below the level of its own node, so that its wins draw nearer with
every attack. A defender that wins plays to any node from which the attacker does
not win.
-/

namespace BisimPlay

/-- The bisimulation game of two processes, laid out and ranked. -/
structure Contest where
  lts : TransitionSystem
  left : ProcessId
  right : ProcessId
  arena : Arena
  ranking : Ranking

namespace Contest

/-- The contest of two processes, where attacks and answers are steps under a
semantics each. Every hyperedge of an arena leads to nodes of the arena, so an
arena has a ranking. -/
def ofProcesses (lts : TransitionSystem) (attacker defender : Semantics)
    (left right : ProcessId) : Contest :=
  let arena := Arena.ofPair lts attacker defender left right
  { lts, left, right, arena, ranking := arena.hypergraph.rankByOpen?.getD ⟨#[]⟩ }

/-- The contest of two named processes. The left name is looked up first. -/
def ofNames (lts : TransitionSystem) (attacker defender : Semantics)
    (left right : String) : Except Fault Contest :=
  match lts.resolve left with
  | .error fault => .error fault
  | .ok left =>
    match lts.resolve right with
    | .error fault => .error fault
    | .ok right => .ok (ofProcesses lts attacker defender left right)

/-- Whether the two processes are bisimilar. -/
def isBisimilar (contest : Contest) : Bool :=
  contest.ranking.marking .root = .zero

/-- The role that wins from the root. -/
def winner (contest : Contest) : Role :=
  if contest.isBisimilar then .defender else .attacker

def level (contest : Contest) (n : NodeId) : Level := contest.ranking.level n

/-- Of a list of moves, the first among those of the lowest level, provided that
this level is below a bound. -/
def lowest? (ranking : Ranking) (bound : Level) : List Move → Option Move
  | [] => none
  | move :: rest =>
    let level := ranking.level move.next
    if level < bound then some ((lowest? ranking level rest).getD move)
    else lowest? ranking bound rest

/-- The attacker's choice: the move to the lowest level below that of the node, or
the first move when no move goes below. -/
def bestAttack (contest : Contest) (n : NodeId) : List Move → Except Fault Move
  | [] => .error (.noChoices .attacker)
  | first :: rest =>
    .ok ((lowest? contest.ranking (contest.level n) (first :: rest)).getD first)

/-- An attacker that has moves but none to a lower level remarks on it. -/
def attackNotices (contest : Contest) (n : NodeId) (choices : List Move) :
    List Notice :=
  if choices ≠ [] ∧ lowest? contest.ranking (contest.level n) choices = none then
    [⟨.warn, "no attack lowers level " ++ (contest.level n).text ++ " at " ++ n.text ++
      "; playing the first choice"⟩]
  else []

/-- The defender's choice: the first move to a node from which the attacker does not
win. -/
def soundDefence (contest : Contest) : List Move → Except Fault Move
  | [] => .error (.noChoices .defender)
  | first :: rest =>
    match (first :: rest).find? fun move =>
        contest.ranking.marking move.next = .zero with
    | some move => .ok move
    | none => .error .noWinningDefence

/-- The rules of a contest. -/
def rules (contest : Contest) : Rules where
  root := .root
  choices := contest.arena.moves
  winner := contest.winner
  attack := contest.bestAttack
  attackNotices := contest.attackNotices
  defence _ := contest.soundDefence
  label := contest.lts.label

theorem root_rules (contest : Contest) : contest.rules.root = .root := rfl

theorem choices_rules (contest : Contest) : contest.rules.choices = contest.arena.moves := rfl

theorem label_rules (contest : Contest) : contest.rules.label = contest.lts.label := rfl

@[simp] theorem lowest?_nil (ranking : Ranking) (bound : Level) :
    lowest? ranking bound [] = none := rfl

@[simp] theorem bestAttack_nil (contest : Contest) (n : NodeId) :
    contest.bestAttack n [] = .error (.noChoices .attacker) := rfl

@[simp] theorem soundDefence_nil (contest : Contest) :
    contest.soundDefence [] = .error (.noChoices .defender) := rfl

theorem arena_ofProcesses (lts : TransitionSystem) (attacker defender : Semantics)
    (left right : ProcessId) :
    (ofProcesses lts attacker defender left right).arena =
      Arena.ofSteps lts attacker defender left right :=
  Arena.ofPair_eq lts attacker defender left right

theorem ranking_ofProcesses (lts : TransitionSystem) (attacker defender : Semantics)
    (left right : ProcessId) :
    (ofProcesses lts attacker defender left right).ranking =
      (Arena.ofSteps lts attacker defender left right).hypergraph.rank?.getD ⟨#[]⟩ := by
  simp [ofProcesses, Arena.ofPair_eq, Hypergraph.rankByOpen?_eq]

theorem isBisimilar_iff (contest : Contest) :
    contest.isBisimilar = true ↔ contest.level .root = .infinity := by
  simp [isBisimilar, level, Ranking.marking_eq_zero_iff]

theorem winner_eq_defender_iff (contest : Contest) :
    contest.winner = .defender ↔ contest.isBisimilar = true := by
  cases h : contest.isBisimilar <;> simp [winner, h]

end Contest

end BisimPlay
