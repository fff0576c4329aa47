/-!
# Magnitudes of binary floating-point numbers

A finite floating-point number is a sign and a magnitude `mantissa * 2 ^ exponent`.
All texts of numbers are chosen from the magnitude in exact natural-number arithmetic,
so nothing in this folder computes with floating-point numbers.
-/

namespace DiffGraph.Decimal

def twoTo (n : Nat) : Nat := Nat.pow 2 n

def tenTo (n : Nat) : Nat := Nat.pow 10 n

/-- The magnitude `mantissa * 2 ^ exponent`. It is `narrow` when the gap to the next smaller
magnitude is half the gap to the next larger one. -/
structure Magnitude where
  mantissa : Nat
  exponent : Int
  narrow : Bool
deriving Repr, DecidableEq

/-- What the bits of a floating-point number stand for. -/
inductive Reading where
  | nan
  | infinite (negative : Bool)
  | finite (negative : Bool) (size : Magnitude)
deriving Repr, DecidableEq

/-- The widths of the two unsigned fields of a binary interchange format. -/
structure Format where
  fractionBits : Nat
  exponentBits : Nat
deriving Repr, DecidableEq

/-- The 32-bit format. -/
def Format.single : Format := ⟨23, 8⟩

def Format.double : Format := ⟨52, 11⟩

/-- Reads the bits of a number: sign, biased exponent and fraction, from the top. The greatest
biased exponent marks infinities and not-a-number, the least one has no hidden bit. -/
def Format.read (f : Format) (bits : Nat) : Reading :=
  let fraction := bits % twoTo f.fractionBits
  let biased := bits / twoTo f.fractionBits % twoTo f.exponentBits
  let negative := bits / twoTo (f.fractionBits + f.exponentBits) % 2 == 1
  let shift : Int := twoTo (f.exponentBits - 1) - 1 + f.fractionBits
  if biased + 1 = twoTo f.exponentBits then
    if fraction = 0 then .infinite negative else .nan
  else if biased = 0 then
    .finite negative ⟨fraction, 1 - shift, false⟩
  else
    .finite negative ⟨fraction + twoTo f.fractionBits, biased - shift, fraction == 0 && 1 < biased⟩

/-- A non-negative rational, numerator over denominator. -/
structure Ratio where
  num : Nat
  den : Nat
deriving Repr, DecidableEq

/-- The magnitude as a ratio of naturals. -/
def Magnitude.ratio (m : Magnitude) : Ratio :=
  ⟨m.mantissa * twoTo m.exponent.toNat, twoTo (-m.exponent).toNat⟩

/-- The ratio times `10 ^ k`. -/
def Ratio.scale (r : Ratio) (k : Int) : Ratio :=
  ⟨r.num * tenTo k.toNat, r.den * tenTo (-k).toNat⟩

/-- The nearest natural; a tie goes to the even one. -/
def Ratio.round (r : Ratio) : Nat :=
  let quotient := r.num / r.den
  let twice := 2 * (r.num % r.den)
  if r.den < twice ∨ (twice = r.den ∧ quotient % 2 = 1) then quotient + 1 else quotient

end DiffGraph.Decimal
