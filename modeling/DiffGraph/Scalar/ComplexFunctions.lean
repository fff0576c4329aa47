import DiffGraph.Scalar.Complex
import DiffGraph.Scalar.Arithmetic

/-!
# Elementary functions of complex numbers

The principal branches of the elementary functions on double-width complex numbers. Where a
component is infinite, not a number, or so large that an intermediate result would overflow, the
limit of the function is given component by component.
-/

namespace DiffGraph.Complex

def inf : Float := 1.0 / 0.0

def nan : Float := 0.0 / 0.0

/-- The least positive number with a full mantissa. -/
def smallest : Float := Float.ofScientific 22250738585072014 true 324

/-- The greatest finite number. -/
def greatest : Float := Float.ofScientific 17976931348623157 false 292

/-- The distance from one to the next number. -/
def epsilon : Float := 2.0 ^ (-52.0)

def ln2 : Float := Float.log 2.0

/-- Whether the sign bit is set. -/
def signed (x : Float) : Bool := x.toBits >>> 63 == 1

/-- The size of `x` with the sign of `y`. -/
def withSignOf (x y : Float) : Float := if signed y then -x.abs else x.abs

/-- Sine and cosine of a finite angle. -/
def sinCos (x : Float) : Float × Float :=
  if x.abs > smallest then (x.sin, x.cos) else (x, 1.0)

/-- The greatest whole number in the range of `exp`. -/
def part : Float := 709.0

/-- `exp size * v` for a size that may be beyond the range of `exp`: a further `part` is taken off
the size, and what is left after that overflows. -/
def remainingExp (size v : Float) : Float :=
  if size > part then
    let v := v * part.exp
    let size := size - part
    if size > part then greatest * v else size.exp * v
  else
    size.exp * v

/-- `exp size * v` for a size that may be beyond the range of `exp`. -/
def scaledExp (size v : Float) : Float :=
  if size > part then remainingExp (size - part) (v * part.exp) else size.exp * v

/-- `exp size / 2 * v` for a size beyond the range of `exp`. Halving the exponential and not `v`
keeps the least `v`. -/
def halfExp (size v : Float) : Float := remainingExp (size - part) (v * (part.exp / 2.0))

def exp (z : Complex Float) : Complex Float :=
  let x := z.re
  let y := z.im
  if x.isFinite then
    if y.isFinite then
      let (s, c) := sinCos y
      ⟨scaledExp x c, scaledExp x s⟩
    else
      ⟨nan, nan⟩
  else if x.isInf then
    let limit : Float := if signed x then 0.0 else inf
    if y.isFinite then
      if y == 0.0 then ⟨limit, y⟩
      else
        let (s, c) := sinCos y
        ⟨withSignOf limit c, withSignOf limit s⟩
    else if signed x then ⟨0.0, withSignOf 0.0 y⟩
    else ⟨inf, nan⟩
  else if y == 0.0 then ⟨nan, y⟩
  else ⟨nan, nan⟩

/-- `ln (1 + x)` without loss for small `x`. -/
def ln1p (x : Float) : Float :=
  let u := 1.0 + x
  if u == 1.0 then x else u.log * x / (u - 1.0)

/-- The two halves of a number's mantissa. -/
def split (x : Float) : Float × Float :=
  let c := x * 134217729.0
  let high := c - (c - x)
  (high, x - high)

/-- A product together with its rounding error. -/
def twoProduct (x y : Float) : Float × Float :=
  let p := x * y
  let (xh, xl) := split x
  let (yh, yl) := split y
  (p, ((xh * yh - p) + xh * yl + xl * yh) + xl * yl)

/-- A sum together with its rounding error. -/
def twoSum (x y : Float) : Float × Float :=
  let s := x + y
  let z := s - x
  (s, (x - (s - z)) + (y - z))

/-- `x * x + y * y - 1` with the errors of the products and sums carried along. -/
def squaresLessOne (x y : Float) : Float :=
  let (xx, xe) := twoProduct x x
  let (yy, ye) := twoProduct y y
  let (a, ae) := twoSum xx (-1.0)
  let (b, be) := twoSum a yy
  b + (be + (ae + (xe + ye)))

/-- The length of the hypotenuse, scaled so that it overflows only where the result does. -/
def hypot (x y : Float) : Float :=
  let x := x.abs
  let y := y.abs
  let large := if x < y then y else x
  let little := if x < y then x else y
  if large == 0.0 then 0.0
  else
    let ratio := little / large
    large * (1.0 + ratio * ratio).sqrt

/-- `ln` of the absolute value; close to the unit circle it is computed from the distance to the
circle. Both sizes are finite, not both zero. -/
def lnAbs (x y : Float) : Float :=
  let large := if x < y then y else x
  let little := if x < y then x else y
  if large > 1e300 ∨ large < 1e-300 then
    let unit : Float := if large > 1.0 then 2.0 ^ 200.0 else 2.0 ^ (-200.0)
    let steps : Float := if large > 1.0 then 200.0 else -200.0
    (hypot (large / unit) (little / unit)).log + steps * ln2
  else if large == 1.0 then
    ln1p (little * little) / 2.0
  else if 0.5 ≤ large ∧ large < 2.0 ∧ 0.5 ≤ large * large + little * little ∧ little < 1.0 then
    ln1p (squaresLessOne large little) / 2.0
  else
    (hypot large little).log

def ln (z : Complex Float) : Complex Float :=
  if z.re == 0.0 && z.im == 0.0 then ⟨-inf, z.im.atan2 z.re⟩
  else if z.re.isNaN || z.im.isNaN then
    if z.re.isInf || z.im.isInf then ⟨inf, nan⟩ else ⟨nan, nan⟩
  else if z.re.isInf || z.im.isInf then ⟨inf, z.im.atan2 z.re⟩
  else ⟨lnAbs z.re.abs z.im.abs, z.im.atan2 z.re⟩

def cosh (z : Complex Float) : Complex Float :=
  let x := z.re
  let y := z.im
  if x.isFinite then
    if y.isFinite then
      let (s, c) := sinCos y
      if x.abs > part then
        let s := if signed x then -s else s
        ⟨halfExp x.abs c, halfExp x.abs s⟩
      else
        ⟨x.cosh * c, x.sinh * s⟩
    else
      ⟨nan, if x == 0.0 then 0.0 else nan⟩
  else if x.isInf then
    if y.isFinite then
      if y == 0.0 then ⟨inf, y * withSignOf 1.0 x⟩
      else
        let (s, c) := sinCos y
        ⟨withSignOf inf c, withSignOf inf s * withSignOf 1.0 x⟩
    else
      ⟨inf, nan⟩
  else
    ⟨nan, if y == 0.0 then y else nan⟩

def sinh (z : Complex Float) : Complex Float :=
  let x := z.re
  let y := z.im
  if x.isFinite then
    if y.isFinite then
      let (s, c) := sinCos y
      if x.abs > part then
        let c := if signed x then -c else c
        ⟨halfExp x.abs c, halfExp x.abs s⟩
      else
        ⟨x.sinh * c, x.cosh * s⟩
    else if x == 0.0 then ⟨x, nan⟩
    else ⟨nan, nan⟩
  else if x.isInf then
    if y.isFinite then
      if y == 0.0 then ⟨x, y⟩
      else
        let (s, c) := sinCos y
        ⟨withSignOf inf c * withSignOf 1.0 x, withSignOf inf s⟩
    else
      ⟨inf, nan⟩
  else
    ⟨nan, if y == 0.0 then y else nan⟩

/-- The hyperbolic tangent. Far from the origin its real part is one in size, and the imaginary
part falls off like the exponential of twice the distance. -/
def tanh (z : Complex Float) : Complex Float :=
  let x := z.re
  let y := z.im
  if x.isFinite && y.isFinite then
    let (s, c) := sinCos y
    let bound : Float := 354.0
    if x.abs > bound then
      let far := x.abs - bound
      let im := 4.0 * s * c / (2.0 * bound).exp
      let im := if far > bound then im / (2.0 * bound).exp else im / (2.0 * far).exp
      ⟨withSignOf 1.0 x, im⟩
    else
      let (sh, ch) := if x.abs > smallest then (x.sinh, x.cosh) else (x, 1.0)
      let den := if sh.abs > c.abs * epsilon then sh * sh + c * c else c * c
      ⟨sh * ch / den, s * c / den⟩
  else if x.isInf then
    ⟨withSignOf 1.0 x,
      if y.isFinite && y.abs > 1.0 then withSignOf 0.0 (y.sin * y.cos) else withSignOf 0.0 y⟩
  else if y == 0.0 then z
  else ⟨if x == 0.0 then x else nan, nan⟩

/-- The product with the imaginary unit. -/
def timesI (z : Complex Float) : Complex Float := ⟨-z.im, z.re⟩

/-- The product with the imaginary unit's opposite. -/
def overI (z : Complex Float) : Complex Float := ⟨z.im, -z.re⟩

/-- The sine, a quarter turn away from the hyperbolic one. -/
def sin (z : Complex Float) : Complex Float := timesI (sinh (overI z))

/-- The cosine, a quarter turn away from the hyperbolic one. -/
def cos (z : Complex Float) : Complex Float := cosh (timesI z)

/-- The tangent, a quarter turn away from the hyperbolic one. -/
def tan (z : Complex Float) : Complex Float := timesI (tanh (overI z))

/-- An elementary function of complex numbers. -/
def elementary : Elementary → Complex Float → Complex Float
  | .exp => exp
  | .ln => ln
  | .sin => sin
  | .cos => cos
  | .tan => tan
  | .sinh => sinh
  | .cosh => cosh
  | .tanh => tanh

end DiffGraph.Complex
