import DiffGraph.Operator.Basic
import DiffGraph.Scalar.Arithmetic
import DiffGraph.Tensor.Error

/-!
# The rules of the operators

The value rule and the derivative rule of each operator, over any values with the few operations
that the rules are made of. A derivative rule takes the values of the operands and the gradient `g`
that comes in from the consumer, and gives the gradient for each operand. The rules of the
operators of two operands bring it back to the operand's shape.
-/

namespace DiffGraph

/-- The operations that the rules of the operators are made of. -/
class Operations (V : Type) where
  neg : V → Except TensorError V
  conj : V → Except TensorError V
  twice : V → Except TensorError V
  add : V → V → Except TensorError V
  mul : V → V → Except TensorError V
  div : V → V → Except TensorError V
  elementary : Elementary → V → Except TensorError V
  sumAll : V → Except TensorError V
  /-- A value times the single entry of another, as a bare number. -/
  timesEntry : V → V → Except TensorError V
  /-- A gradient in the shape of an operand. -/
  fit : V → V → Except TensorError V

variable {V : Type} [Operations V]

namespace Unary

/-- The value of an operator; the square of a complex element is its squared absolute value. -/
def value (op : Unary) (a : V) : Except TensorError V :=
  match op with
  | .neg => Operations.neg a
  | .square => do Operations.mul (← Operations.conj a) a
  | .exp => Operations.elementary .exp a
  | .ln => Operations.elementary .ln a
  | .sin => Operations.elementary .sin a
  | .cos => Operations.elementary .cos a
  | .tan => Operations.elementary .tan a
  | .sinh => Operations.elementary .sinh a
  | .cosh => Operations.elementary .cosh a
  | .tanh => Operations.elementary .tanh a

/-- The gradient over the square of a value. -/
def overSquare (g c : V) : Except TensorError V := do Operations.div g (← Operations.mul c c)

def pull (op : Unary) (a g : V) : Except TensorError V :=
  match op with
  | .neg => Operations.neg g
  | .square => do Operations.mul g (← Operations.twice (← Operations.conj a))
  | .exp => do Operations.mul g (← Operations.elementary .exp a)
  | .ln => Operations.div g a
  | .sin => do Operations.mul g (← Operations.elementary .cos a)
  | .cos => do Operations.mul g (← Operations.neg (← Operations.elementary .sin a))
  | .tan => do overSquare g (← Operations.elementary .cos a)
  | .sinh => do Operations.mul g (← Operations.elementary .cosh a)
  | .cosh => do Operations.mul g (← Operations.elementary .sinh a)
  | .tanh => do overSquare g (← Operations.elementary .cosh a)

end Unary

namespace Binary

/-- The value of an operator; `dot` sums the products of all elements. -/
def value (op : Binary) (l r : V) : Except TensorError V :=
  match op with
  | .add => Operations.add l r
  | .mul => Operations.mul l r
  | .div => Operations.div l r
  | .dot => do Operations.sumAll (← Operations.mul l r)

/-- The gradients for the operands, in the shapes that the local derivatives have. The value of
`dot` has rank 0, so its gradient is a bare number. -/
def localPull (op : Binary) (l r g : V) : Except TensorError (V × V) :=
  match op with
  | .add => .ok (g, g)
  | .mul => do
    let left ← Operations.mul r g
    let right ← Operations.mul l g
    return (left, right)
  | .div => do
    let left ← Operations.div g r
    let numerator ← Operations.mul (← Operations.neg l) g
    let right ← Operations.div numerator (← Operations.mul r r)
    return (left, right)
  | .dot => do
    let left ← Operations.timesEntry r g
    let right ← Operations.timesEntry l g
    return (left, right)

/-- The gradients for the operands, each in the shape of its operand. -/
def pull (op : Binary) (l r g : V) : Except TensorError (V × V) := do
  let (left, right) ← localPull op l r g
  let left ← Operations.fit left l
  let right ← Operations.fit right r
  return (left, right)

end Binary

end DiffGraph
