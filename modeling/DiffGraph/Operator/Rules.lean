import DiffGraph.Operator.Basic

/-!
# Rules of a calculus

What a calculation graph needs to know of the values it computes with. Every rule but the seed
may fail, and no law is assumed: the walks over a graph are the same for any rules.
-/

namespace DiffGraph

/-- The value and derivative rules of the operators over values `V` with failures `E`. -/
structure Rules (V E : Type) where
  /-- The value of an operator of one operand. -/
  unary : Unary → V → Except E V
  /-- The value of an operator of two operands. -/
  binary : Binary → V → V → Except E V
  /-- The gradient for the operand, from its value and the gradient that comes in. -/
  unaryPull : Unary → V → V → Except E V
  /-- The gradients for the left and the right operand, from their values and the gradient that
  comes in. -/
  binaryPull : Binary → V → V → V → Except E (V × V)
  /-- The gradient of an output with respect to itself. -/
  seed : V → V
  /-- Adds a further contribution to a gradient. -/
  add : V → V → Except E V

end DiffGraph
