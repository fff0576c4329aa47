import DiffGraph.Scalar.Arithmetic
import DiffGraph.Tensor.Reduce

/-!
# Tensors

A tensor is a grid of elements of one element type. Operations on two tensors broadcast their
shapes and compute in the join of their element types, operation by operation: nothing is
widened before the operation that needs it.
-/

namespace DiffGraph

/-- A grid of elements of one element type. -/
structure Tensor (A : DType → Type) where
  dtype : DType
  grid : Grid (A dtype)

namespace Tensor

variable {A : DType → Type}

def shape (t : Tensor A) : Shape := t.grid.shape

def rank (t : Tensor A) : Nat := t.shape.length

/-- Applies a function to every element. -/
def map (t : Tensor A) (f : A t.dtype → A t.dtype) : Tensor A := ⟨t.dtype, t.grid.map f⟩

variable [Arithmetic A]

/-- The tensor of rank 0 with one element. -/
def single {d : DType} (x : A d) : Tensor A := ⟨d, .single x⟩

/-- The tensor in another element type. -/
def cast (e : DType) (t : Tensor A) : Tensor A := ⟨e, t.grid.map (Arithmetic.cast e)⟩

/-- A tensor of ones of the same shape and element type. -/
def onesLike (t : Tensor A) : Tensor A := ⟨t.dtype, .constant t.shape (Arithmetic.one t.dtype)⟩

/-- A tensor of zeros of the same shape and element type. -/
def zerosLike (t : Tensor A) : Tensor A := ⟨t.dtype, .constant t.shape (Arithmetic.zero t.dtype)⟩

/-- Combines the elements that meet under broadcasting, in the join of the element types. -/
def zip (f : {d : DType} → A d → A d → A d) (l r : Tensor A) : Except TensorError (Tensor A) :=
  match l.shape.broadcast r.shape with
  | none => .error (.notBroadcastable l.shape r.shape)
  | some s =>
    let d := l.dtype.join r.dtype
    .ok ⟨d, Grid.zip (Arithmetic.zero l.dtype) (Arithmetic.zero r.dtype)
      (fun x y => f (Arithmetic.cast d x) (Arithmetic.cast d y)) s l.grid r.grid⟩

def add (l r : Tensor A) : Except TensorError (Tensor A) := zip Arithmetic.add l r

def mul (l r : Tensor A) : Except TensorError (Tensor A) := zip Arithmetic.mul l r

def div (l r : Tensor A) : Except TensorError (Tensor A) := zip Arithmetic.div l r

def neg (t : Tensor A) : Tensor A := t.map Arithmetic.neg

def conj (t : Tensor A) : Tensor A := t.map Arithmetic.conj

/-- An elementary function of every element. -/
def elementary (f : Elementary) (t : Tensor A) : Tensor A := t.map (Arithmetic.elementary f)

def twice (t : Tensor A) : Tensor A := t.map (Arithmetic.mul (Arithmetic.two t.dtype))

/-- The tensor times a bare number, which may widen the field but not the width. -/
def timesNumber {e : DType} (t : Tensor A) (x : A e) : Tensor A :=
  let d := t.dtype.withNumber e
  ⟨d, t.grid.map fun y => Arithmetic.mul (Arithmetic.cast d y) (Arithmetic.cast d x)⟩

/-- The sum of all elements, as a tensor of rank 0. -/
def sumAll (t : Tensor A) : Tensor A :=
  ⟨t.dtype, .single (t.grid.sum (Arithmetic.zero t.dtype) Arithmetic.add)⟩

/-- The element of a tensor of rank 0. -/
def item (t : Tensor A) : Except TensorError (A t.dtype) :=
  if t.rank = 0 then .ok (t.grid.get (Arithmetic.zero t.dtype) [])
  else .error (.rankMismatch t.rank 0)

/-- The gradient in an operand's shape. -/
def reduceTo (s : Shape) (t : Tensor A) : Except TensorError (Tensor A) :=
  (t.grid.reduceTo (Arithmetic.zero t.dtype) Arithmetic.add s).map fun g => ⟨t.dtype, g⟩

/-- The gradient in a shape that may leave an extent open. -/
def reduceToOpen (s : OpenShape) (t : Tensor A) : Except TensorError (Tensor A) :=
  (t.grid.reduceToOpen (Arithmetic.zero t.dtype) Arithmetic.add s).map fun g => ⟨t.dtype, g⟩

end Tensor

end DiffGraph
