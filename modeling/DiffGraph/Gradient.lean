import DiffGraph.Config
import DiffGraph.Data.Operand
import DiffGraph.Expression
import DiffGraph.Operator.TensorRules

/-!
# Gradients of expressions

The gradient of an expression whose value is a number, with respect to one input or to several,
from one reverse pass on a graph that is made for it and then forgotten. An input that the value
does not depend on has the zero gradient. On a graph that is kept, a variable can be moved along a
gradient that a pass has left there.
-/

namespace DiffGraph.Gradient

variable {D : Type} {A : DType → Type} [Arithmetic A]

/-- Evaluates a node, whose value must have rank 0, and runs a reverse pass from it. -/
def runFrom (y : Ref) : Action (Tensor A) TensorError Unit := do
  let out ← Action.evalValue (Tensor.rules A) y
  if out.rank ≠ 0 then
    Action.ofRule (.error (.rankMismatch out.rank 0))
  Action.evalDeriv (Tensor.rules A) y

/-- The gradient of a node after a pass; zero where the pass did not reach it. -/
def derivOrZero (n : Nat) : Action (Tensor A) TensorError (Tensor A) :=
  Action.read fun g =>
    match g.deriv? n with
    | some d => .ok d
    | none =>
      ((g.value? n).map Tensor.zerosLike).elim (.error (.valueUninitialized (.node n))) .ok

/-- Appends the inputs as variables, in order. -/
def appendInputs (conversion : Conversion D (Tensor A) TensorError) :
    List (String × D) → Action (Tensor A) TensorError Names
  | [] => return []
  | (s, d) :: rest => do
    let n ← Action.variableOf conversion conversion.any s d
    return (s, n) :: (← appendInputs conversion rest)

/-- The gradients of some nodes, with their names. -/
def derivs : Names → Action (Tensor A) TensorError (List (String × Tensor A))
  | [] => return []
  | (s, n) :: rest => do
    let d ← derivOrZero n
    return (s, d) :: (← derivs rest)

/-- Keeps one entry for each name: the place of the first one with the data of the last. -/
def collapse (inputs : List (String × D)) : List (String × D) :=
  inputs.foldl put []
where
  /-- Puts an entry in the place of one of the same name, or at the end. -/
  put : List (String × D) → String × D → List (String × D)
    | [], e => [e]
    | f :: rest, e => if f.1 = e.1 then e :: rest else f :: put rest e

/-- The nodes of the inputs as handles. -/
def handles (names : Names) : Handles := names.map fun e => (e.1, .node e.2)

/-- Builds an expression over some inputs, differentiates it, and reads off the gradient of each
input. -/
def action (conversion : Conversion D (Tensor A) TensorError) (e : Expression D)
    (inputs : List (String × D)) : Action (Tensor A) TensorError (List (String × Tensor A)) := do
  let names ← appendInputs conversion (collapse inputs)
  let y ← e.build conversion (handles names)
  runFrom y
  derivs names

/-- The gradients of an expression with respect to all inputs, in the order of the inputs. -/
def grads (conversion : Conversion D (Tensor A) TensorError) (e : Expression D)
    (inputs : List (String × D)) : Except (Fault TensorError) (List (String × Tensor A)) :=
  ((action conversion e inputs).run Graph.empty).outcome

/-- The name of the only input of `grad`. -/
def inputName : String := "x"

/-- The gradient of an expression with respect to its only input. -/
def grad (conversion : Conversion D (Tensor A) TensorError) (e : Expression D) (x : D) :
    Except (Fault TensorError) (Tensor A) :=
  let act : Action (Tensor A) TensorError (Tensor A) := do
    let n ← Action.variableOf conversion conversion.any inputName x
    let y ← e.build conversion [(inputName, .node n)]
    runFrom y
    derivOrZero n
  (act.run Graph.empty).outcome

/-- Moves a variable by a multiple of a node's gradient. The multiple is client data and is combined
with the gradient as such, so that a bare number does not widen the gradient. -/
def moveAlong (c : Config) (r : Ref) (multiple : Datum) (source : Ref) :
    Action (Stored (Tensor Machine)) TensorError Unit := do
  let v ← Action.getValue r
  let d ← Action.getDeriv source
  let step ← Action.ofRule (multiple.combine .product (c.storedConversion.data d))
  let moved ← Action.ofRule (Datum.combine .sum (c.storedConversion.data v) step)
  Action.setValue c.storedConversion.any r moved

end DiffGraph.Gradient
