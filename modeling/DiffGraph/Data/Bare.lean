import DiffGraph.Scalar.Machine
import DiffGraph.Tensor.Error

/-!
# Bare numbers

Numbers that have no element type yet: whole numbers without bounds, and real and complex ones in
double width. Arithmetic on them is exact for whole numbers and fails on a division by zero, where
arithmetic on tensors answers an infinity.
-/

namespace DiffGraph

/-- A number without an element type. -/
inductive Bare where
  | whole (i : Int)
  | real (x : Float)
  | complex (z : Complex Float)

namespace Bare

/-- The nearest real number to a whole one, if there is one of its size. -/
def realOf (i : Int) : Except TensorError Float :=
  let x := Machine.integerDouble i
  if x.isInf then .error .tooLargeForReal else .ok x

/-- The number as a complex one. -/
def toComplex : Bare → Except TensorError (Complex Float)
  | .whole i => (realOf i).map (⟨·, 0.0⟩)
  | .real x => .ok ⟨x, 0.0⟩
  | .complex z => .ok z

/-- The number of binary digits of a natural. -/
def bitCount (n : Nat) : Nat := if n = 0 then 0 else n.log2 + 1

/-- The real number nearest to a quotient of naturals: so many binary digits of the quotient that
the rounding is decided, with a last digit that tells whether there are more. -/
def nearestQuotient (m n : Nat) : Float :=
  let shift := 66 + bitCount n - bitCount m
  let scaled := m * Decimal.twoTo shift
  let digits := 2 * (scaled / n) + (if scaled % n = 0 then 0 else 1)
  (Machine.naturalDouble digits).scaleB (-(shift + 1 : Nat))

/-- The quotient of whole numbers, as a real one. -/
def wholeQuotient (i j : Int) : Except TensorError Float :=
  if j = 0 then .error .wholeDivisionByZero
  else
    let size := nearestQuotient i.natAbs j.natAbs
    if size.isInf then .error .quotientTooLarge
    else .ok (if (i < 0) != (j < 0) then -size else size)

def neg : Bare → Bare
  | .whole i => .whole (-i)
  | .real x => .real (-x)
  | .complex z => .complex z.neg

/-- Combines two numbers in the least of the three kinds that holds both. -/
def combine (whole : Int → Int → Except TensorError Bare)
    (real : Float → Float → Except TensorError Float)
    (complex : Complex Float → Complex Float → Except TensorError (Complex Float)) :
    Bare → Bare → Except TensorError Bare
  | .whole i, .whole j => whole i j
  | .whole i, .real y => do return .real (← real (← realOf i) y)
  | .real x, .whole j => do return .real (← real x (← realOf j))
  | .real x, .real y => (real x y).map .real
  | x, y => do return .complex (← complex (← x.toComplex) (← y.toComplex))

def add : Bare → Bare → Except TensorError Bare :=
  combine (fun i j => .ok (.whole (i + j))) (fun x y => .ok (x + y)) (fun z w => .ok (z.add w))

def mul : Bare → Bare → Except TensorError Bare :=
  combine (fun i j => .ok (.whole (i * j))) (fun x y => .ok (x * y)) (fun z w => .ok (z.mul w))

def div : Bare → Bare → Except TensorError Bare :=
  combine (fun i j => (wholeQuotient i j).map .real)
    (fun x y => if y == 0.0 then .error .realDivisionByZero else .ok (x / y))
    (fun z w =>
      if w.re == 0.0 && w.im == 0.0 then .error .complexDivisionByZero else .ok (z.quotient w))

end Bare

end DiffGraph
