import DiffGraph.Graph.Basic

/-!
# Statistics of a graph

Counts of nodes, edges and operators. The fan-in of a node is the number of edges that end at it,
the fan-out the number of those that start there; both are counted from the list of edges.
-/

namespace DiffGraph

/-- What is counted of a graph. -/
structure Statistics where
  nodes : Nat
  edges : Nat
  maxFanIn : Nat
  meanFanIn : Rat
  maxFanOut : Nat
  meanFanOut : Rat
  /-- The number of nodes with each tag, in the order of the first such node. -/
  operations : List (String × Nat)
deriving DecidableEq

namespace Statistics

/-- Counts one more of a tag; a new tag goes to the end. -/
def count (tag : String) : List (String × Nat) → List (String × Nat)
  | [] => [(tag, 1)]
  | e :: rest => if e.1 = tag then (tag, e.2 + 1) :: rest else e :: count tag rest

/-- The number of occurrences of each tag, in the order of the first one. -/
def tally (tags : List String) : List (String × Nat) := tags.foldl (fun c tag => count tag c) []

/-- How often each of `n` nodes is among the given ones. -/
def occurrences (n : Nat) (ends : List Nat) : Array Nat :=
  ends.foldl (fun counts i => counts.modify i (· + 1)) (Array.replicate n 0)

def total (counts : List Nat) : Nat := counts.foldl (· + ·) 0

def mean (counts : List Nat) : Rat := mkRat (total counts) counts.length

def greatest (counts : List Nat) : Nat := counts.foldl max 0

/-- The counts for a graph without nodes. -/
def none : Statistics := ⟨0, 0, 0, 0, 0, 0, []⟩

end Statistics

namespace Graph

variable {V : Type}

def fanIns (g : Graph V) : List Nat :=
  (Statistics.occurrences g.size (g.edges.toList.filterMap fun e => g.place e.2)).toList

def fanOuts (g : Graph V) : List Nat :=
  (Statistics.occurrences g.size (g.edges.toList.map (·.1))).toList

def statistics (g : Graph V) : Statistics :=
  if g.size = 0 then .none
  else
    { nodes := g.size
      edges := g.edges.size
      maxFanIn := Statistics.greatest g.fanIns
      meanFanIn := Statistics.mean g.fanIns
      maxFanOut := Statistics.greatest g.fanOuts
      meanFanOut := Statistics.mean g.fanOuts
      operations := Statistics.tally (g.nodes.toList.map (·.kind.tag)) }

end Graph

/-- The double-width number nearest to a rational with parts below `2 ^ 53`. -/
def Rat.nearestDouble (q : Rat) : Float := Float.ofInt q.num / Float.ofNat q.den

end DiffGraph
