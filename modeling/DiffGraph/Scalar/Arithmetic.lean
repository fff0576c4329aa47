import DiffGraph.Scalar.DType

/-!
# Scalar arithmetic

The operations that tensors need of their elements, for every element type at once. No law is
asked for, so the same tensor operations run on rounded machine numbers and can be read over the
real numbers or over a field, where the element types coincide and `cast` is the identity.
-/

namespace DiffGraph

/-- The elementary functions. -/
inductive Elementary where
  | exp
  | ln
  | sin
  | cos
  | tan
  | sinh
  | cosh
  | tanh
deriving Repr, DecidableEq

/-- Arithmetic on the elements of every element type. -/
class Arithmetic (A : DType → Type) where
  zero : (d : DType) → A d
  one : (d : DType) → A d
  neg : {d : DType} → A d → A d
  conj : {d : DType} → A d → A d
  add : {d : DType} → A d → A d → A d
  mul : {d : DType} → A d → A d → A d
  div : {d : DType} → A d → A d → A d
  elementary : {d : DType} → Elementary → A d → A d
  cast : {d : DType} → (e : DType) → A d → A e

namespace Arithmetic

variable {A : DType → Type} [Arithmetic A]

def two (d : DType) : A d := add (one d) (one d)

end Arithmetic

end DiffGraph
