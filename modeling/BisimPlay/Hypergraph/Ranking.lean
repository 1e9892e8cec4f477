import BisimPlay.Hypergraph.Basic
import BisimPlay.Hypergraph.Level

/-!
# Ranking a hypergraph

A node is won by the attacker when some hyperedge of it has only targets that are
won. Ranking finds the won nodes round by round: in round `k` a node that has no
finite level yet receives level `k` when all targets of one of its hyperedges have
levels below `k`. An empty hyperedge asks for nothing, so its node has level 1. The
ranking is complete with the first round that changes nothing.

Hyperedges are looked at in order until one is satisfied, and the targets of a
hyperedge until one is not. A target that is no node of the graph does no harm as
long as it is not looked at; once it is, the graph has no ranking.
-/

namespace BisimPlay

/-- The levels of the nodes of a hypergraph. -/
structure Ranking where
  levels : Array Level
deriving DecidableEq, Inhabited

namespace Ranking

def size (ranking : Ranking) : Nat := ranking.levels.size

/-- The level of a node; a node that is not ranked is at infinity. -/
def level (ranking : Ranking) (n : NodeId) : Level :=
  ranking.levels[n.index]?.getD .infinity

/-- Who wins from a node: the attacker exactly when its level is finite. -/
def marking (ranking : Ranking) (n : NodeId) : Marking :=
  if (ranking.level n).isFinite then .one else .zero

theorem level_of_size_le (ranking : Ranking) (n : NodeId)
    (h : ranking.size ≤ n.index) : ranking.level n = .infinity := by
  have hnone : ranking.levels[n.index]? = none := Array.getElem?_eq_none h
  simp [level, hnone]

theorem marking_eq_one_iff (ranking : Ranking) (n : NodeId) :
    ranking.marking n = .one ↔ ranking.level n ≠ .infinity := by
  simp [marking]

theorem marking_eq_zero_iff (ranking : Ranking) (n : NodeId) :
    ranking.marking n = .zero ↔ ranking.level n = .infinity := by
  simp [marking]

end Ranking

namespace Hypergraph

/-- Do all targets of a hyperedge have levels below a bound? Targets are looked at
in order up to the first that has not; `none` when one of these does not exist. -/
def edgeBelow? (levels : Array Level) (bound : Level) : Hyperedge → Option Bool
  | [] => some true
  | target :: rest =>
    match levels[target.index]? with
    | none => none
    | some level => if level < bound then edgeBelow? levels bound rest else some false

/-- Has some hyperedge only targets with levels below a bound? Hyperedges are
looked at in order up to the first that has. -/
def someBelow? (levels : Array Level) (bound : Level) : List Hyperedge → Option Bool
  | [] => some false
  | edge :: rest =>
    match edgeBelow? levels bound edge with
    | none => none
    | some true => some true
    | some false => someBelow? levels bound rest

/-- The level of a node after a round: a finite level stays, and infinity becomes
the round's own level when a hyperedge of the node is satisfied. -/
def relevel? (levels : Array Level) (round : Level) (level : Level)
    (edges : List Hyperedge) : Option Level :=
  if level.isFinite then some level
  else (someBelow? levels round edges).map fun won => if won then round else level

/-- One round: all nodes are judged by the levels before it. -/
def round? (g : Hypergraph) (levels : Array Level) (round : Level) :
    Option (Array Level) :=
  ((levels.toList.zip g.edges.toList).mapM fun (level, edges) =>
    relevel? levels round level edges).map List.toArray

/-- The rounds from number `k` on, up to the first that changes nothing; the first
number bounds them. -/
def rounds? (g : Hypergraph) : Nat → Nat → Array Level → Option (Array Level)
  | 0, _, levels => some levels
  | n + 1, k, levels =>
    match g.round? levels (.ofRound k) with
    | none => none
    | some next => if next = levels then some levels else g.rounds? n (k + 1) next

/-- The ranking of a hypergraph, `none` when a missing target was looked at. Each
round but the last gives at least one node its level, so there are at most as many
of those as nodes. -/
def rank? (g : Hypergraph) : Option Ranking :=
  (g.rounds? (g.size + 1) 1 (Array.replicate g.size .infinity)).map Ranking.mk

@[simp] theorem edgeBelow?_nil (levels : Array Level) (bound : Level) :
    edgeBelow? levels bound [] = some true := rfl

@[simp] theorem someBelow?_nil (levels : Array Level) (bound : Level) :
    someBelow? levels bound [] = some false := rfl

/-- When every target exists, a hyperedge is looked at without harm, and the answer
is that all of its levels are below the bound. -/
theorem edgeBelow?_of_forall (levels : Array Level) (bound : Level) (edge : Hyperedge)
    (h : ∀ target ∈ edge, target.index < levels.size) :
    edgeBelow? levels bound edge =
      some (edge.all fun target =>
        decide (levels[target.index]?.getD .infinity < bound)) := by
  induction edge with
  | nil => rfl
  | cons target rest ih =>
      have htarget := h target (by simp)
      have hrest := ih fun t ht => h t (by simp [ht])
      by_cases hlt : levels[target.index] < bound
      · simp [edgeBelow?, htarget, hlt, hrest]
      · simp [edgeBelow?, htarget, hlt]

/-- When every target exists, the hyperedges of a node are looked at without harm,
and the answer is that one of them is satisfied. -/
theorem someBelow?_of_forall (levels : Array Level) (bound : Level)
    (edges : List Hyperedge)
    (h : ∀ edge ∈ edges, ∀ target ∈ edge, target.index < levels.size) :
    someBelow? levels bound edges =
      some (edges.any fun edge => edge.all fun target =>
        decide (levels[target.index]?.getD .infinity < bound)) := by
  induction edges with
  | nil => rfl
  | cons edge rest ih =>
      have hedge := edgeBelow?_of_forall levels bound edge (h edge (by simp))
      have hrest := ih fun e he => h e (by simp [he])
      rw [someBelow?, hedge]
      cases hall : edge.all fun target =>
          decide (levels[target.index]?.getD .infinity < bound) with
      | true => simp [hall]
      | false => simp [hall, hrest]

end Hypergraph

end BisimPlay
