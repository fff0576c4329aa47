import DiffGraph.Decimal.Magnitude
import DiffGraph.Scalar.DType

/-!
# Element types of data

Data that a tensor is made from may hold integers, truth values, texts and arbitrary objects
beside floating-point numbers. Entries of different types are held in a common one.
-/

namespace DiffGraph

/-- The element types of exact numbers. -/
inductive Integral where
  | bool
  | signed (bits : Nat)
  | unsigned (bits : Nat)
deriving Repr, DecidableEq

namespace Integral

/-- The name of an exact element type. -/
def name : Integral → String
  | .bool => "bool"
  | .signed bits => "int" ++ toString bits
  | .unsigned bits => "uint" ++ toString bits

/-- The exact element types by name. -/
def all : List Integral :=
  [.bool, .signed 8, .signed 16, .signed 32, .signed 64,
    .unsigned 8, .unsigned 16, .unsigned 32, .unsigned 64]

/-- The width of a real number that holds the values, as far as one does. -/
def realWidth : Integral → Width
  | .bool => .single
  | .signed bits => if bits ≤ 16 then .single else .double
  | .unsigned bits => if bits ≤ 16 then .single else .double

/-- The number of characters that the longest value is written with. -/
def textLength : Integral → Nat
  | .bool => 5
  | .signed 8 => 4
  | .signed 16 => 6
  | .signed 32 => 11
  | .signed _ => 21
  | .unsigned 8 => 3
  | .unsigned 16 => 5
  | .unsigned 32 => 10
  | .unsigned _ => 20

/-- The element type in which sums are taken: 64 bits wide. -/
def sumType : Integral → Integral
  | .unsigned _ => .unsigned 64
  | _ => .signed 64

/-- An integer brought into the range of the type by wrapping around. -/
def wrap : Integral → Int → Int
  | .bool, i => if i = 0 then 0 else 1
  | .signed bits, i => i.bmod (Nat.pow 2 bits)
  | .unsigned bits, i => i.emod (Nat.pow 2 bits)

/-- The code of an exact element type: its kind and its number of bytes. -/
def code : Integral → String
  | .bool => "?"
  | .signed bits => "i" ++ toString (bits / 8)
  | .unsigned bits => "u" ++ toString (bits / 8)

/-- Whether a value takes one byte, so that there is no order of bytes. -/
def isByte : Integral → Bool
  | .bool => true
  | .signed bits | .unsigned bits => bits = 8

/-- The type of the products with conjugates: whole numbers stand for truth values. -/
def wholeType : Integral → Integral
  | .bool => .signed 8
  | k => k

/-- The width of the real numbers in which functions of the values are computed. -/
def functionWidth : Integral → Width
  | .bool => .single
  | .signed bits | .unsigned bits => if bits ≤ 16 then .single else .double

/-- A real number cut off to a whole one and brought into the range of the type. The cut-off number
passes through a machine word, whose least value stands for all that it does not hold. -/
def cutOff (k : Integral) (x : Float) : Int :=
  let bits := match k with
    | .bool | .signed 8 | .signed 16 | .signed 32 | .unsigned 8 | .unsigned 16 => 32
    | _ => 64
  let least : Int := -(Nat.pow 2 (bits - 1) : Nat)
  match Decimal.Format.double.read x.toBits.toNat with
  | .finite negative m =>
    let size := m.ratio.num / m.ratio.den
    let whole : Int := if negative then -size else size
    match k with
    | .bool => if m.mantissa = 0 then 0 else 1
    | .unsigned 64 => if least ≤ whole && whole < -2 * least then k.wrap whole else 0
    | k => k.wrap (if least ≤ whole && whole < -least then whole else least)
  | _ => if k = .bool then 1 else k.wrap least

end Integral

/-- The element type of data. -/
inductive ElementType where
  | integral (k : Integral)
  | floating (d : DType)
  | text (length : Nat)
  | object
deriving Repr, DecidableEq

namespace ElementType

/-- The name of an element type. -/
def name : ElementType → String
  | .integral k => k.name
  | .floating d => d.name
  | .text n => "<U" ++ toString n
  | .object => "object"

/-- The code of an element type: its kind and its number of bytes or characters. -/
def code : ElementType → String
  | .integral k => k.code
  | .floating d => d.code
  | .text n => "U" ++ toString n
  | .object => "O"

/-- The common type of two exact ones. A signed type holds the values of a narrower unsigned one;
no exact type holds both signs with 64 unsigned bits. -/
def joinIntegral : Integral → Integral → ElementType
  | .bool, k => .integral k
  | k, .bool => .integral k
  | .signed m, .signed n => .integral (.signed (max m n))
  | .unsigned m, .unsigned n => .integral (.unsigned (max m n))
  | .signed m, .unsigned n => mixed m n
  | .unsigned n, .signed m => mixed m n
where
  /-- The common type of a signed and an unsigned one. -/
  mixed (m n : Nat) : ElementType :=
    if n < m then .integral (.signed m)
    else if n < 64 then .integral (.signed (2 * n))
    else .floating .float64

/-- The number of characters of a number as text. -/
def textLength : ElementType → Nat
  | .integral k => k.textLength
  | .floating d => if d.field = .real then 32 else 64
  | .text n => n
  | .object => 0

/-- The common type of two element types. -/
def join : ElementType → ElementType → ElementType
  | .object, _ => .object
  | _, .object => .object
  | .text m, e => .text (max m e.textLength)
  | e, .text n => .text (max e.textLength n)
  | .integral k, .integral l => joinIntegral k l
  | .integral k, .floating d => .floating ⟨d.field, k.realWidth.join d.width⟩
  | .floating d, .integral k => .floating ⟨d.field, d.width.join k.realWidth⟩
  | .floating d, .floating e => .floating (d.join e)

/-- The common type of a list of types; without entries the double-width real numbers. -/
def common : List ElementType → ElementType
  | [] => .floating .float64
  | e :: es => es.foldl join e

end ElementType

end DiffGraph
