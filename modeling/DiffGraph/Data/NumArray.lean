import DiffGraph.Data.ElementType
import DiffGraph.Scalar.Machine
import DiffGraph.Tensor.Basic

/-!
# Arrays of numbers

An array holds either exact numbers, as integers within the range of their type, or
floating-point ones, as a tensor.
-/

namespace DiffGraph

/-- A rectangular array of numbers. -/
inductive NumArray where
  | integral (k : Integral) (grid : Grid Int)
  | floating (t : Tensor Machine)

/-- One number of an array. -/
inductive Number where
  | integer (i : Int)
  | floating (d : DType) (x : Machine d)

namespace NumArray

def shape : NumArray → Shape
  | .integral _ g => g.shape
  | .floating t => t.shape

def rank (a : NumArray) : Nat := a.shape.length

def elementType : NumArray → ElementType
  | .integral k _ => .integral k
  | .floating t => .floating t.dtype

def numbers : NumArray → List Number
  | .integral _ g => g.data.toList.map .integer
  | .floating t => t.grid.data.toList.map (.floating t.dtype)

/-- The whole number in an array of rank 0. -/
def entry? : NumArray → Option Int
  | .integral .bool _ => none
  | .integral _ g => if g.shape = [] then some (g.get 0 []) else none
  | .floating _ => none

/-- The parts along the first axis. -/
def parts : NumArray → List NumArray
  | .integral k g => (split 0 g).map (.integral k)
  | .floating t => (split (Arithmetic.zero t.dtype) t.grid).map fun g => .floating ⟨t.dtype, g⟩
where
  /-- The grids along the first axis. -/
  split {α : Type} (outside : α) (g : Grid α) : List (Grid α) :=
    match g.shape with
    | [] => []
    | n :: s => (List.range n).map fun i => Grid.ofFn s fun j => g.get outside (i :: j)

/-- The array as a tensor of an element type. -/
def toTensor (d : DType) : NumArray → Tensor Machine
  | .integral _ g => ⟨d, g.map (Machine.ofInt d)⟩
  | .floating t => t.cast d

/-- An array of ones of the same shape and element type. -/
def onesLike : NumArray → NumArray
  | .integral k g => .integral k (.constant g.shape 1)
  | .floating t => .floating t.onesLike

/-- An array of zeros of the same shape and element type. -/
def zerosLike : NumArray → NumArray
  | .integral k g => .integral k (.constant g.shape 0)
  | .floating t => .floating t.zerosLike

/-- The sum of all entries; exact numbers are summed in 64 bits. -/
def sumAll : NumArray → NumArray
  | .integral k g => .integral k.sumType (.single (k.sumType.wrap (g.sum 0 (· + ·))))
  | .floating t => .floating t.sumAll

/-- The array as a gradient in an operand's shape; exact numbers are summed in 64 bits. -/
def reduceTo (s : OpenShape) : NumArray → Except TensorError NumArray
  | .integral k g =>
    let sums := (Grid.stretchedAxes g.shape (s.filled 0)).contains true &&
      s.closed? != some g.shape && s.length ≤ g.rank
    let k := if sums then k.sumType else k
    (g.reduceToOpen 0 (fun i j => k.wrap (i + j)) s).map (.integral k)
  | .floating t => (t.reduceToOpen s).map .floating

end NumArray

/-- The number in an element type, by way of the common type of the data it is part of. -/
def Number.toMachine (common d : DType) : Number → Machine d
  | .integer i => Machine.cast d (Machine.ofInt common i)
  | .floating _ x => Machine.cast d (Machine.cast common x)

/-- The number as an integer; a floating-point number is none. -/
def Number.toInt : Number → Int
  | .integer i => i
  | .floating _ _ => 0

end DiffGraph
