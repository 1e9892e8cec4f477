import BisimPlay.Text.Decimal

/-!
# Hypergraphs

A node of a hypergraph has hyperedges, and a hyperedge depends on all of its
targets together. Nodes are the positions of an array, node 0 is the root. Nothing
forbids a target that is no node of the graph.
-/

namespace BisimPlay

/-- The number of a node, a 32-bit word. -/
structure NodeId where
  word : UInt32
deriving DecidableEq, Inhabited

namespace NodeId

def root : NodeId := ⟨0⟩

def index (n : NodeId) : Nat := n.word.toNat

def ofIndex (i : Nat) : NodeId := ⟨UInt32.ofNat i⟩

def text (n : NodeId) : String := "Node(" ++ Decimal.render n.index ++ ")"

@[simp] theorem index_root : root.index = 0 := rfl

@[simp] theorem ofIndex_index (n : NodeId) : ofIndex n.index = n := by
  simp [ofIndex, index]

theorem index_ofIndex (i : Nat) (h : i < 0x100000000) : (ofIndex i).index = i := by
  simpa [ofIndex, index, UInt32.toNat_ofNat] using Nat.mod_eq_of_lt h

theorem index_lt (n : NodeId) : n.index < 0x100000000 := n.word.toNat_lt

theorem index_inj {m n : NodeId} : m.index = n.index ↔ m = n := by
  constructor
  · intro h
    rw [← ofIndex_index m, ← ofIndex_index n, h]
  · rintro rfl
    rfl

end NodeId

/-- The targets that a node depends on together. -/
abbrev Hyperedge := List NodeId

/-- A hypergraph: the hyperedges of each node. -/
structure Hypergraph where
  edges : Array (List Hyperedge)
deriving DecidableEq, Inhabited

namespace Hypergraph

def size (g : Hypergraph) : Nat := g.edges.size

/-- The hyperedges of a node, none for a node that is not there. -/
def hyperedges (g : Hypergraph) (n : NodeId) : List Hyperedge :=
  g.edges[n.index]?.getD []

/-- A hypergraph is closed when every target is one of its nodes. -/
def IsClosed (g : Hypergraph) : Prop :=
  ∀ edges ∈ g.edges, ∀ edge ∈ edges, ∀ target ∈ edge, target.index < g.size

theorem hyperedges_of_size_le (g : Hypergraph) (n : NodeId) (h : g.size ≤ n.index) :
    g.hyperedges n = [] := by
  have hnone : g.edges[n.index]? = none := Array.getElem?_eq_none h
  simp [hyperedges, hnone]

/-- Every target of a closed hypergraph is one of its nodes. -/
theorem IsClosed.index_lt {g : Hypergraph} (hclosed : g.IsClosed) {n : NodeId}
    {edge : Hyperedge} (hedge : edge ∈ g.hyperedges n) {target : NodeId} (ht : target ∈ edge) :
    target.index < g.size := by
  by_cases hn : n.index < g.edges.size
  · have hedges : g.hyperedges n = g.edges[n.index] := by simp [hyperedges, hn]
    rw [hedges] at hedge
    exact hclosed _ (Array.getElem_mem hn) edge hedge target ht
  · rw [g.hyperedges_of_size_le n (Nat.le_of_not_lt hn)] at hedge
    exact absurd hedge List.not_mem_nil

end Hypergraph

end BisimPlay
