import DiffGraph.Graph.Basic

/-!
# Invalidation

When a variable gets another value, the values of the operators that depend on it are dropped.
The search follows the consumers of each node once, whether or not there was a value to drop.
-/

namespace DiffGraph

variable {V E : Type}

/-- What an invalidation leads to. -/
structure Invalidation (V E : Type) where
  outcome : Except (Fault E) Unit
  graph : Graph V
  /-- The dependents that were met, the last one first. -/
  dependents : List Int

namespace Graph

/-- The graph without the value of an operator; the value of a leaf stays. -/
def dropComputed (g : Graph V) (n : Nat) : Graph V :=
  g.modify n fun node => if node.kind.isOperator then { node with value := none } else node

end Graph

/-- Drops the values of the operators on the stack and of all their dependents that are not in
`seen`. The first argument bounds how many nodes are still to be seen for the first time. An end
of an edge that is counted from the last node is no index to follow. -/
def invalidateStack : Nat → List Int → Graph V → List Int → Invalidation V E
  | _, [], g, seen => ⟨.ok (), g, seen⟩
  | fresh, i :: stack, g, seen =>
    if seen.contains i then invalidateStack fresh stack g seen
    else match fresh, g.place i with
      | fresh + 1, some n =>
        let g := g.dropComputed n
        match g.check (.index i) with
        | .ok n => invalidateStack fresh ((g.consumersOf n).reverse ++ stack) g (i :: seen)
        | .error e => ⟨.error e, g, i :: seen⟩
      | _, _ => ⟨.error .subscriptOutOfRange, g, i :: seen⟩
termination_by fresh stack => (fresh, stack.length)

/-- Drops the values of all operators that depend on a node. Besides the nodes themselves one end
that is no index may be met, and ends the search. -/
def invalidate (g : Graph V) (n : Nat) : Invalidation V E :=
  invalidateStack (g.size + 1) (g.consumersOf n).reverse g []

end DiffGraph
