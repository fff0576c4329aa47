import DiffGraph.Scalar.Arithmetic
import DiffGraph.Scalar.ComplexFunctions
import DiffGraph.Decimal.Magnitude

/-!
# Machine numbers

Rounded floating-point numbers of each element type, and their arithmetic. The four basic
operations round in the width of the element type; the elementary functions of single-width
numbers are computed in double width and rounded once.
-/

namespace DiffGraph

/-- A machine number of a given element type. -/
inductive Machine : DType → Type where
  | float32 (x : Float32) : Machine .float32
  | float64 (x : Float) : Machine .float64
  | complex64 (z : Complex Float32) : Machine .complex64
  | complex128 (z : Complex Float) : Machine .complex128

namespace Machine

def widen (z : Complex Float32) : Complex Float := ⟨z.re.toFloat, z.im.toFloat⟩

def narrow (z : Complex Float) : Complex Float32 := ⟨z.re.toFloat32, z.im.toFloat32⟩

/-- The value in the widest element type. -/
def toComplex : {d : DType} → Machine d → Complex Float
  | _, .float32 x => ⟨x.toFloat, 0.0⟩
  | _, .float64 x => ⟨x, 0.0⟩
  | _, .complex64 z => widen z
  | _, .complex128 z => z

/-- A double-width complex number rounded to an element type; a real one takes the real
component. -/
def ofComplex : (d : DType) → Complex Float → Machine d
  | .float32, z => .float32 z.re.toFloat32
  | .float64, z => .float64 z.re
  | .complex64, z => .complex64 (narrow z)
  | .complex128, z => .complex128 z

/-- A double-width real number rounded to an element type. -/
def ofReal (d : DType) (x : Float) : Machine d := ofComplex d ⟨x, 0.0⟩

/-- The double-width number nearest to a natural. -/
def naturalDouble (n : Nat) : Float := Float.ofScientific n false 0

/-- The single-width number nearest to a natural. -/
def naturalSingle (n : Nat) : Float32 := Float32.ofScientific n false 0

/-- The double-width number nearest to an integer. -/
def integerDouble (i : Int) : Float :=
  if i < 0 then -naturalDouble i.natAbs else naturalDouble i.natAbs

/-- The single-width number nearest to an integer. -/
def integerSingle (i : Int) : Float32 :=
  if i < 0 then -naturalSingle i.natAbs else naturalSingle i.natAbs

/-- An integer rounded once to an element type. -/
def ofInt : (d : DType) → Int → Machine d
  | .float32, i => .float32 (integerSingle i)
  | .float64, i => .float64 (integerDouble i)
  | .complex64, i => .complex64 ⟨integerSingle i, 0.0⟩
  | .complex128, i => .complex128 ⟨integerDouble i, 0.0⟩

/-- The value in another element type. Within one element type nothing changes. -/
def cast : {d : DType} → (e : DType) → Machine d → Machine e
  | _, .float32, .float32 x => .float32 x
  | _, .float64, .float64 x => .float64 x
  | _, .complex64, .complex64 z => .complex64 z
  | _, .complex128, .complex128 z => .complex128 z
  | _, .complex64, .float32 x => .complex64 ⟨x, 0.0⟩
  | _, e, x => ofComplex e x.toComplex

def add : {d : DType} → Machine d → Machine d → Machine d
  | _, .float32 x, .float32 y => .float32 (x + y)
  | _, .float64 x, .float64 y => .float64 (x + y)
  | _, .complex64 z, .complex64 w => .complex64 (z.add w)
  | _, .complex128 z, .complex128 w => .complex128 (z.add w)

def mul : {d : DType} → Machine d → Machine d → Machine d
  | _, .float32 x, .float32 y => .float32 (x * y)
  | _, .float64 x, .float64 y => .float64 (x * y)
  | _, .complex64 z, .complex64 w => .complex64 (z.mul w)
  | _, .complex128 z, .complex128 w => .complex128 (z.mul w)

def div : {d : DType} → Machine d → Machine d → Machine d
  | _, .float32 x, .float32 y => .float32 (x / y)
  | _, .float64 x, .float64 y => .float64 (x / y)
  | _, .complex64 z, .complex64 w => .complex64 (z.div w)
  | _, .complex128 z, .complex128 w => .complex128 (z.div w)

def neg : {d : DType} → Machine d → Machine d
  | _, .float32 x => .float32 (-x)
  | _, .float64 x => .float64 (-x)
  | _, .complex64 z => .complex64 z.neg
  | _, .complex128 z => .complex128 z.neg

/-- The conjugate number; a real number is its own. -/
def conj : {d : DType} → Machine d → Machine d
  | _, .float32 x => .float32 x
  | _, .float64 x => .float64 x
  | _, .complex64 z => .complex64 z.conj
  | _, .complex128 z => .complex128 z.conj

/-- An elementary function of real numbers. -/
def realElementary : Elementary → Float → Float
  | .exp => Float.exp
  | .ln => Float.log
  | .sin => Float.sin
  | .cos => Float.cos
  | .tan => Float.tan
  | .sinh => Float.sinh
  | .cosh => Float.cosh
  | .tanh => Float.tanh

def elementary (f : Elementary) : {d : DType} → Machine d → Machine d
  | _, .float32 x => .float32 (realElementary f x.toFloat).toFloat32
  | _, .float64 x => .float64 (realElementary f x)
  | _, .complex64 z => .complex64 (narrow (Complex.elementary f (widen z)))
  | _, .complex128 z => .complex128 (Complex.elementary f z)

instance : Arithmetic Machine where
  zero d := ofInt d 0
  one d := ofInt d 1
  neg := neg
  conj := conj
  add := add
  mul := mul
  div := div
  elementary f x := elementary f x
  cast := cast

/-- The readings of a number's components: one for a real number, two for a complex one. -/
def readings : {d : DType} → Machine d → List Decimal.Reading
  | _, .float32 x => [single x]
  | _, .float64 x => [double x]
  | _, .complex64 z => [single z.re, single z.im]
  | _, .complex128 z => [double z.re, double z.im]
where
  /-- Reads the bits of a single-width number. -/
  single (x : Float32) : Decimal.Reading := Decimal.Format.single.read x.toBits.toNat
  /-- Reads the bits of a double-width number. -/
  double (x : Float) : Decimal.Reading := Decimal.Format.double.read x.toBits.toNat

@[simp] theorem cast_self : {d : DType} → (x : Machine d) → cast d x = x
  | _, .float32 _ => rfl
  | _, .float64 _ => rfl
  | _, .complex64 _ => rfl
  | _, .complex128 _ => rfl

end Machine

end DiffGraph
