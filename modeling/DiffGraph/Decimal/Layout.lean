import DiffGraph.Decimal.Digits

/-!
# Texts of numbers

The layouts in which chosen digits are written: scientific with a set number of digits, a set
number of places, a set number of significant digits with trailing zeros removed, and the
shortest form that reads back.
-/

namespace DiffGraph.Decimal

/-- The digits of `n`, filled with zeros on the left to `width`. -/
def zeroFilled (width n : Nat) : String :=
  let digits := toString n
  String.ofList (List.replicate (width - digits.length) '0') ++ digits

/-- Writes `n * 10 ^ -places` with a point, if there are places. -/
def pointed (places n : Nat) : String :=
  let digits := (zeroFilled (places + 1) n).toList
  let whole := digits.take (digits.length - places)
  let fraction := digits.drop (digits.length - places)
  if places = 0 then String.ofList whole
  else String.ofList whole ++ "." ++ String.ofList fraction

/-- The exponent of a scientific text: a sign and at least two digits. -/
def exponentText (e : Int) : String :=
  (if e < 0 then "e-" else "e+") ++ zeroFilled 2 e.natAbs

/-- One digit before the point, `places` after it, then the exponent. -/
def Scientific.text (s : Scientific) : String :=
  pointed s.places s.coefficient ++ exponentText s.exponent

/-- The same value without the zeros at the end of its digits. -/
def Scientific.trimmed (s : Scientific) : Scientific :=
  let digits := (zeroFilled (s.places + 1) s.coefficient).toList
  let zeros := (digits.reverse.takeWhile (· == '0')).length
  let cut := min zeros s.places
  ⟨s.coefficient / tenTo cut, s.places - cut, s.exponent⟩

/-- The value written without an exponent; `whole` marks what follows a value without
fraction. -/
def Scientific.positional (s : Scientific) (whole : String) : String :=
  let shift := s.exponent - s.places
  if 0 ≤ shift then toString (s.coefficient * tenTo shift.toNat) ++ whole
  else pointed (-shift).toNat s.coefficient

/-- The text of a magnitude in a layout for finite ones, with its sign. -/
def Reading.layout (finite : Magnitude → String) : Reading → String
  | .nan => "nan"
  | .infinite negative => if negative then "-inf" else "inf"
  | .finite negative m => if negative then "-" ++ finite m else finite m

/-- A zero without its sign; every other reading unchanged. -/
def Reading.unsignedZero : Reading → Reading
  | .finite true m => .finite (m.mantissa != 0) m
  | x => x

/-- Scientific text with `digits` significant digits. -/
def Reading.scientific (digits : Nat) (x : Reading) : String :=
  x.layout fun m => (m.ratio.scientific (digits - 1)).text

/-- Text with `places` digits after the point. -/
def Reading.fixed (places : Nat) (x : Reading) : String :=
  x.layout fun m => pointed places (m.ratio.fixed places)

/-- Text with `digits` significant digits and no zeros at the end, scientific for exponents
below -4 and from `digits` on. -/
def Reading.general (digits : Nat) (x : Reading) : String :=
  x.layout fun m =>
    let s := m.ratio.scientific (digits - 1)
    if -4 ≤ s.exponent ∧ s.exponent < digits then s.trimmed.positional ""
    else s.trimmed.text

/-- The shortest text that reads back, scientific for exponents below -4 and from 16 on; `whole`
marks a positional text without fraction. -/
def Reading.shortest (whole : String) (x : Reading) : String :=
  x.layout fun m =>
    let s := m.shortest
    if -4 ≤ s.exponent ∧ s.exponent < 16 then s.positional whole else s.text

end DiffGraph.Decimal
