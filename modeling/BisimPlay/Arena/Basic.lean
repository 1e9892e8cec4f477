import BisimPlay.Arena.Position
import BisimPlay.Hypergraph.Ranking
import BisimPlay.Process.Steps

/-!
# The arena of a contest

The arena of two processes is the hypergraph of all positions that a play between
them can reach, laid out breadth first from the pair of the two. A pair of processes
is one node, however often it is reached, whereas every attack is a node of its own.
A pair has a hyperedge for each attack, so that the attacker wins from it as soon as
one attack wins. An attack has a single hyperedge for all of its answers, so that
the attacker wins from it only when every answer does.

The arena grows node by node: the next node that has no hyperedges yet receives
them, and the positions they lead to are appended where they are new. It is finished
when every node has its hyperedges.
-/

namespace BisimPlay

/-- An arena: the position of each node, and the hyperedges of each. While an arena
grows, only its first nodes have their hyperedges. -/
structure Arena where
  positions : Array Position
  edges : Array (List Hyperedge)
deriving DecidableEq, Inhabited

namespace Arena

/-- The node of a position, appended unless it is a pair that has a node already. -/
def place (positions : Array Position) (position : Position) :
    NodeId × Array Position :=
  let known := if position.isPair then positions.findIdx? (· = position) else none
  match known with
  | some i => (.ofIndex i, positions)
  | none => (.ofIndex positions.size, positions.push position)

/-- The nodes of a list of positions, placed in order. -/
def placeAll (positions : Array Position) :
    List Position → List NodeId × Array Position
  | [] => ([], positions)
  | position :: rest =>
    let (node, positions) := place positions position
    let (nodes, positions) := placeAll positions rest
    (node :: nodes, positions)

/-- The hyperedges of a position, given the nodes of its successors: one for each
attack on a pair, a single one for all answers to an attack. -/
def bundle (position : Position) (successors : List NodeId) : List Hyperedge :=
  if position.isPair then successors.map fun n => [n] else [successors]

/-- Give the next node without hyperedges its own; `none` when there is none. -/
def expand? (attacks answers : ProcessId → List Transition) (arena : Arena) :
    Option Arena :=
  match arena.positions[arena.edges.size]? with
  | none => none
  | some position =>
    let (nodes, positions) :=
      placeAll arena.positions (position.successors attacks answers)
    some ⟨positions, arena.edges.push (bundle position nodes)⟩

/-- Expand node after node until every node has its hyperedges; the number bounds
the nodes that are expanded. -/
def grow (attacks answers : ProcessId → List Transition) : Nat → Arena → Arena
  | 0, arena => arena
  | n + 1, arena =>
    match arena.expand? attacks answers with
    | none => arena
    | some next => grow attacks answers n next

def start (left right : ProcessId) : Arena := ⟨#[.pair left right], #[]⟩

/-- A bound for the nodes of an arena, from the number `k` of steps of its system. A
play stays among the two processes that it starts with and the targets of the steps,
`k + 2` processes at most. A process has at most `(k + 1) * (k + 2)` steps, strong or
weak: each strong one is a step of the system, and the weak ones differ in their
actions, one of `k` or `tau`, or in their targets. So there is a node for each pair of
processes, and for each pair its attacks from either side. -/
def capacity (k : Nat) : Nat :=
  let processes := k + 2
  let attacks := (k + 1) * processes
  processes * processes * (1 + 2 * attacks)

/-- The arena of two processes of a system, where attacks and answers are steps
under a semantics each. -/
def ofSteps (lts : TransitionSystem) (attacker defender : Semantics)
    (left right : ProcessId) : Arena :=
  grow (lts.steps attacker) (lts.steps defender) (capacity lts.stepCount)
    (start left right)

def size (arena : Arena) : Nat := arena.positions.size

/-- The position of a node. -/
def position? (arena : Arena) (n : NodeId) : Option Position :=
  arena.positions[n.index]?

/-- The two processes at a node. -/
def processes? (arena : Arena) (n : NodeId) : Option (ProcessId × ProcessId) :=
  (arena.position? n).map (·.processes)

def hypergraph (arena : Arena) : Hypergraph := ⟨arena.edges⟩

/-- The hyperedges of a node. -/
def hyperedges (arena : Arena) (n : NodeId) : List Hyperedge :=
  arena.hypergraph.hyperedges n

@[simp] theorem flatten_bundle (position : Position) (successors : List NodeId) :
    (bundle position successors).flatten = successors := by
  unfold bundle
  split
  · simp [← List.flatMap_def]
  · simp

theorem grow_of_expand?_eq_none (attacks answers : ProcessId → List Transition)
    (n : Nat) (arena : Arena) (h : arena.expand? attacks answers = none) :
    grow attacks answers n arena = arena := by
  cases n with
  | zero => rfl
  | succ n => simp [grow, h]

theorem grow_succ_of_expand?_eq_some (attacks answers : ProcessId → List Transition)
    (n : Nat) (arena next : Arena) (h : arena.expand? attacks answers = some next) :
    grow attacks answers (n + 1) arena = grow attacks answers n next := by
  simp [grow, h]

end Arena

end BisimPlay
