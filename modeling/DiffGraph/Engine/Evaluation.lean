import DiffGraph.Graph.Basic
import DiffGraph.Operator.Rules

/-!
# Forward evaluation

The value of a node is computed from the values of its operands, the left one first, and kept.
The walk holds the nodes that wait for a value on a stack, so its depth is not bounded by the
depth of a recursion. A node whose operands are not all known waits below them; a node may wait
in several places of the stack and is computed once.
-/

namespace DiffGraph

variable {V E : Type}

/-- What is found at a node when its value is wanted. -/
inductive Finding (V : Type) where
  /-- The value is held already. -/
  | known
  /-- Operands have to be computed first, the left one first. -/
  | waiting (operands : List Nat)
  /-- The operator's rule gave the value. -/
  | value (v : V)

namespace Graph

/-- The values of the operands that an application works on, if they are all known. -/
def apply (rules : Rules V E) (g : Graph V) : Application → Except (Fault E) (Finding V)
  | .leaf => .ok .known
  | .unary op a =>
    match g.value? a with
    | some x => (rules.unary op x).mapError .rule |>.map .value
    | none => .ok (.waiting [a])
  | .binary op l r =>
    match g.value? l, g.value? r with
    | some x, some y => (rules.binary op x y).mapError .rule |>.map .value
    | _, _ => .ok (.waiting ([l, r].filter fun a => (g.value? a).isNone))

/-- Looks at a node whose value is wanted. -/
def examine (rules : Rules V E) (g : Graph V) (n : Nat) : Except (Fault E) (Finding V) :=
  match g.nodes[n]? with
  | none => .error .subscriptOutOfRange
  | some node =>
    if node.value.isSome then .ok .known
    else match node.kind with
      | .var => .error (.valueUninitialized (.node n))
      | .const => .error (.constantWithoutValue n)
      | _ => g.application n >>= g.apply rules

end Graph

/-- What an evaluation leads to. -/
structure Evaluation (V E : Type) where
  outcome : Except (Fault E) Unit
  graph : Graph V
  /-- The nodes whose rule was applied with success, in order. -/
  computed : List Nat

/-- Gives every node on the stack a value, from the top down. `done` lists the nodes computed so
far, the last one first. -/
def evaluateStack (rules : Rules V E) :
    Nat → List Nat → Graph V → List Nat → Evaluation V E
  | _, [], g, done => ⟨.ok (), g, done.reverse⟩
  | 0, _ :: _, g, done => ⟨.error .cyclic, g, done.reverse⟩
  | steps + 1, n :: stack, g, done =>
    match g.examine rules n with
    | .error e => ⟨.error e, g, done.reverse⟩
    | .ok .known => evaluateStack rules steps stack g done
    | .ok (.waiting operands) => evaluateStack rules steps (operands ++ n :: stack) g done
    | .ok (.value v) => evaluateStack rules steps stack (g.withValue n (some v)) (n :: done)

/-- The number of steps that suffices where no node is its own ancestor. Each node is made to wait
at most once and then adds at most two places to the stack; every other step takes a place off. -/
def evaluationSteps (g : Graph V) : Nat := 3 * g.size + 1

/-- Gives a node a value, and with it all the nodes that it depends on. -/
def evaluate (rules : Rules V E) (g : Graph V) (n : Nat) : Evaluation V E :=
  evaluateStack rules (evaluationSteps g) [n] g []

end DiffGraph
