import DiffGraph.Graph.Basic
import DiffGraph.Operator.Rules

/-!
# The reverse pass

A reverse pass sends the seed down from an output along every path of operands. At each visit the
incoming gradient is added to what the node has, and the derivative rule gives the contributions
for the operands; the left operand's part of the graph is finished before the right one's. A node
that is reached along several paths is visited once for each.
-/

namespace DiffGraph

variable {V E : Type}

/-- What a reverse pass leads to. -/
structure Sweep (V E : Type) where
  outcome : Except (Fault E) Unit
  graph : Graph V
  /-- The nodes in the order of the visits. -/
  visited : List Nat

namespace Graph

/-- The value of an operand, which a derivative rule needs. -/
def operandValue (g : Graph V) (n : Nat) : Except (Fault E) V :=
  (g.value? n).elim (.error (.valueUninitialized (.node n))) .ok

/-- The gradient of a node with a further contribution. -/
def accumulated (rules : Rules V E) (g : Graph V) (n : Nat) (d : V) : Except (Fault E) V :=
  match g.deriv? n with
  | none => .ok d
  | some before => (rules.add before d).mapError .rule

/-- The contributions that a gradient at a node makes to its operands, left one first. -/
def contributions (rules : Rules V E) (g : Graph V) (n : Nat) (d : V) :
    Except (Fault E) (List (Nat × V)) := do
  match ← g.application n with
  | .leaf => return []
  | .unary op a =>
    let x ← g.operandValue a
    let d ← (rules.unaryPull op x d).mapError .rule
    return [(a, d)]
  | .binary op l r =>
    let x ← g.operandValue l
    let y ← g.operandValue r
    let (dl, dr) ← (rules.binaryPull op x y d).mapError .rule
    return [(l, dl), (r, dr)]

end Graph

/-- Visits the nodes on the stack from the top down, each with the gradient that comes in. `done`
lists the visits so far, the last one first. -/
def sweepStack (rules : Rules V E) :
    Nat → List (Nat × V) → Graph V → List Nat → Sweep V E
  | _, [], g, done => ⟨.ok (), g, done.reverse⟩
  | 0, _ :: _, g, done => ⟨.error .cyclic, g, done.reverse⟩
  | steps + 1, (n, d) :: stack, g, done =>
    match g.accumulated rules n d with
    | .error e => ⟨.error e, g, (n :: done).reverse⟩
    | .ok total =>
      let g := g.withDeriv n (some total)
      match g.contributions rules n d with
      | .error e => ⟨.error e, g, (n :: done).reverse⟩
      | .ok parts => sweepStack rules steps (parts ++ stack) g (n :: done)

/-- The number of visits that suffices where no node is its own ancestor. -/
def sweepSteps (g : Graph V) : Nat := Nat.pow 2 g.size

/-- Runs a reverse pass from a node with a value, from the seed for that value. The gradients of
earlier passes are cleared. -/
def sweep (rules : Rules V E) (g : Graph V) (n : Nat) (v : V) : Sweep V E :=
  sweepStack rules (sweepSteps g) [(n, rules.seed v)] g.withoutDerivs []

end DiffGraph
