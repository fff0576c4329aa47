import DiffGraph.Operator.Operations
import DiffGraph.Operator.Rules
import DiffGraph.Tensor.Basic

/-!
# The operators on tensors

The operations of tensors that the rules of the operators are made of. Only operations on two
tensors can fail, and those that bring a tensor to a shape or read off its single element.
-/

namespace DiffGraph

variable {A : DType → Type} [Arithmetic A]

instance : Operations (Tensor A) where
  neg a := .ok a.neg
  conj a := .ok a.conj
  twice a := .ok a.twice
  add := Tensor.add
  mul := Tensor.mul
  div := Tensor.div
  elementary f a := .ok (a.elementary f)
  sumAll a := .ok a.sumAll
  timesEntry a g := g.item.map a.timesNumber
  fit g a := g.reduceTo a.shape

/-- The rules of the operators on tensors. The seed is a tensor of ones. -/
def Tensor.rules (A : DType → Type) [Arithmetic A] : Rules (Tensor A) TensorError where
  unary := Unary.value
  binary := Binary.value
  unaryPull := Unary.pull
  binaryPull := Binary.pull
  seed := Tensor.onesLike
  add := Tensor.add

end DiffGraph
