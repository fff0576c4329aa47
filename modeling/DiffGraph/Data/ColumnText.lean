import DiffGraph.Decimal.Layout
import DiffGraph.Text.Align
import DiffGraph.Scalar.DType

/-!
# Columns of numbers

The numbers of an array are written alike, so that their points stand below each other: all of
them with an exponent or none. Each number asks for its own shortest digits, up to eight places.
Without exponents it gets them, filled with blanks; with exponents all numbers get as many digits
as the longest asked for.
-/

namespace DiffGraph.ColumnText

open Decimal Text

/-- The most digits written after the point. -/
def maxPlaces : Nat := 8

/-- The parts of a number that are aligned with those of the others. -/
structure Parts where
  whole : String
  fraction : String
  exponent : Int
deriving Repr, DecidableEq

/-- Whether a positive number carries a sign too. -/
inductive Signs where
  | negativeOnly
  | always
deriving Repr, DecidableEq

def Signs.text (signs : Signs) (negative : Bool) : String :=
  if negative then "-" else if signs = .always then "+" else ""

/-- The digits that a number asks for before an exponent: the shortest ones, at most `maxPlaces`
after the first one. -/
def wantedDigits (m : Magnitude) : Scientific :=
  let s := m.shortest
  if s.places ≤ maxPlaces then s else (m.ratio.scientific maxPlaces).trimmed

/-- Digits in scientific form, split at the point. -/
def scientificParts (sign : String) (s : Scientific) : Parts :=
  let digits := (zeroFilled (s.places + 1) s.coefficient).toList
  ⟨sign ++ String.ofList (digits.take 1), String.ofList (digits.drop 1), s.exponent⟩

/-- Splits the digits of `n * 10 ^ -places` at the point and drops zeros at the end. -/
def positionalSplit (places n : Nat) : String × String :=
  let digits := (zeroFilled (places + 1) n).toList
  let whole := digits.take (digits.length - places)
  let fraction := digits.drop (digits.length - places)
  (String.ofList whole, String.ofList (fraction.reverse.dropWhile (· == '0')).reverse)

/-- The digits without an exponent, at most `maxPlaces` after the point. -/
def positionalParts (sign : String) (m : Magnitude) : Parts :=
  let s := m.shortest
  let shift := s.exponent - s.places
  let (whole, fraction) :=
    if 0 ≤ shift then (toString (s.coefficient * tenTo shift.toNat), "")
    else if (-shift).toNat ≤ maxPlaces then positionalSplit (-shift).toNat s.coefficient
    else positionalSplit maxPlaces (m.ratio.fixed maxPlaces)
  ⟨sign ++ whole, fraction, 0⟩

/-- The parts of a finite number, if the reading is one. The digits before an exponent are chosen
by `digits`. -/
def partsOf (exponential : Bool) (digits : Magnitude → Scientific) (signs : Signs) :
    Reading → Option Parts
  | .finite negative m =>
    let sign := signs.text negative
    some (if exponential then scientificParts sign (digits m) else positionalParts sign m)
  | _ => none

/-- How the numbers of a column are written. -/
structure Column where
  exponential : Bool
  signs : Signs
  /-- The width before the point. -/
  left : Nat
  /-- The width after the point. -/
  right : Nat
  /-- The number of digits after the point of a number with an exponent. -/
  places : Nat
  /-- The number of digits of an exponent. -/
  exponentDigits : Nat
deriving Repr

def greatest (ns : List Nat) : Nat := ns.foldl max 0

/-- The bounds that decide whether a column has exponents, as numbers of the column's width. -/
structure Bounds where
  /-- From this size on. -/
  large : Float
  /-- Below this size. -/
  small : Float
  /-- The quotient of two numbers of the column. -/
  quotient : Float → Float → Float

/-- The bounds for a width: at most as many digits before the point as the width holds. -/
def bounds : Width → Bounds
  | .single => ⟨1e6, (1e-4 : Float32).toFloat, fun x y => (x.toFloat32 / y.toFloat32).toFloat⟩
  | .double => ⟨1e8, 1e-4, fun x y => x / y⟩

/-- Whether the numbers are written with exponents: the sizes that are not zero are large, or
small, or lie too far apart. -/
def isExponential (w : Width) (xs : List Float) : Bool :=
  let sizes := (xs.filter fun x => x.isFinite && x != 0.0).map Float.abs
  match sizes with
  | [] => false
  | x :: rest =>
    let b := bounds w
    let most := rest.foldl (fun m y => if m < y then y else m) x
    let least := rest.foldl (fun m y => if y < m then y else m) x
    b.large ≤ most || least < b.small || 1000.0 < b.quotient most least

/-- The reading of a number's bits. -/
def readingOf (w : Width) (x : Float) : Reading :=
  match w with
  | .single => Format.single.read x.toFloat32.toBits.toNat
  | .double => Format.double.read x.toBits.toNat

/-- The column that some numbers are written in. Room is left for infinities and for numbers that
are none. -/
def column (w : Width) (signs : Signs) (xs : List Float) : Column :=
  let exponential := isExponential w xs
  let parts := xs.filterMap fun x => partsOf exponential wantedDigits signs (readingOf w x)
  let left := greatest (parts.map (·.whole.length))
  let places := greatest (parts.map (·.fraction.length))
  let exponentDigits := greatest (parts.map fun p => (zeroFilled 2 p.exponent.natAbs).length)
  let right := if parts.isEmpty then 0 else if exponential then exponentDigits + 2 + places
    else places
  let special := xs.any fun x => !x.isFinite
  let signedInf := signs = .always || xs.any fun x => x.isInf && x < 0.0
  let infWidth := if signedInf then 4 else 3
  let left := if special then max left (infWidth - (right + 1)) else left
  ⟨exponential, signs, left, right, places, exponentDigits⟩

/-- The text of a number in a column. -/
def Column.text (c : Column) (w : Width) (x : Float) : String :=
  let r := readingOf w x
  match partsOf c.exponential (·.atPlaces c.places) c.signs r with
  | some p =>
    if c.exponential then
      alignRight c.left p.whole ++ "." ++ p.fraction ++
        (if p.exponent < 0 then "e-" else "e+") ++
        zeroFilled c.exponentDigits p.exponent.natAbs
    else
      alignRight c.left p.whole ++ "." ++ alignLeft c.right p.fraction
  | none =>
    let sign := if c.signs = .always && !(x.isInf && x < 0.0) then "+" else ""
    alignRight (c.left + c.right + 1) (sign ++ r.layout fun _ => "")

end DiffGraph.ColumnText
