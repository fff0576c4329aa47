/-!
# Complex numbers

Complex numbers over any type of real components, with the arithmetic of the rectangular form.
Division scales by the component of the divisor that is larger in size, so that it overflows
only where the quotient does. It comes in two forms that round differently: `div` multiplies by the
reciprocal of the scaled divisor, `quotient` divides by it.
-/

namespace DiffGraph

/-- A complex number in rectangular form. -/
structure Complex (R : Type) where
  re : R
  im : R
deriving Repr

namespace Complex

variable {R : Type}

def neg [Neg R] (z : Complex R) : Complex R := ⟨-z.re, -z.im⟩

def conj [Neg R] (z : Complex R) : Complex R := ⟨z.re, -z.im⟩

def add [Add R] (z w : Complex R) : Complex R := ⟨z.re + w.re, z.im + w.im⟩

/-- The product of two sums of components, multiplied out. -/
def mul [Add R] [Sub R] [Mul R] (z w : Complex R) : Complex R :=
  ⟨z.re * w.re - z.im * w.im, z.re * w.im + z.im * w.re⟩

/-- The operations on real components that division needs beside the four basic ones. -/
class Divisible (R : Type) extends Add R, Sub R, Mul R, Div R where
  one : R
  size : R → R
  atMost : R → R → Bool
  isZero : R → Bool

/-- The quotient, with the divisor scaled by its larger component. A zero divisor divides both
components by zero. -/
def div [Divisible R] (z w : Complex R) : Complex R :=
  let sizeRe := Divisible.size w.re
  let sizeIm := Divisible.size w.im
  if Divisible.atMost sizeIm sizeRe then
    if Divisible.isZero sizeRe && Divisible.isZero sizeIm then
      ⟨z.re / sizeRe, z.im / sizeRe⟩
    else
      let ratio := w.im / w.re
      let scale := Divisible.one / (w.re + w.im * ratio)
      ⟨(z.re + z.im * ratio) * scale, (z.im - z.re * ratio) * scale⟩
  else
    let ratio := w.re / w.im
    let scale := Divisible.one / (w.im + w.re * ratio)
    ⟨(z.re * ratio + z.im) * scale, (z.im * ratio - z.re) * scale⟩

/-- The quotient by a divisor that is not zero, with the divisor scaled by its larger component and
each component divided once. -/
def quotient [Divisible R] (z w : Complex R) : Complex R :=
  if Divisible.atMost (Divisible.size w.im) (Divisible.size w.re) then
    let ratio := w.im / w.re
    let scaled := w.re + w.im * ratio
    ⟨(z.re + z.im * ratio) / scaled, (z.im - z.re * ratio) / scaled⟩
  else
    let ratio := w.re / w.im
    let scaled := w.re * ratio + w.im
    ⟨(z.re * ratio + z.im) / scaled, (z.im * ratio - z.re) / scaled⟩

instance : Divisible Float where
  one := 1
  size := Float.abs
  atMost x y := x ≤ y
  isZero x := x == 0

instance : Divisible Float32 where
  one := 1
  size := Float32.abs
  atMost x y := x ≤ y
  isZero x := x == 0

end Complex

end DiffGraph
