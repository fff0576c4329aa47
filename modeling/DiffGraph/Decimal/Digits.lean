import DiffGraph.Decimal.Magnitude

/-!
# Decimal digits of a magnitude

Four ways to choose digits: a set number of significant digits, a set number of places after
the point, the fewest digits that read back to the same magnitude, and a set number of digits that
read back as far as so many can. Each is stated on exact ratios; how the digits are laid out as
text is left to `Layout`.
-/

namespace DiffGraph.Decimal

/-- Digits in scientific form: `coefficient * 10 ^ (exponent - places)`, with one digit before
the point and `places` after it. -/
structure Scientific where
  coefficient : Nat
  places : Nat
  exponent : Int
deriving Repr, DecidableEq

/-- The number of decimal digits of a natural. -/
def digitCount (n : Nat) : Nat := (Nat.toDigits 10 n).length

/-- Whether the ratio is at least `10 ^ k`. -/
def Ratio.reaches (r : Ratio) (k : Int) : Bool :=
  let s := r.scale (-k)
  s.den ≤ s.num

/-- The greatest `k` for which a positive ratio is at least `10 ^ k`. The digit counts of the two
parts leave two candidates. -/
def Ratio.decade (r : Ratio) : Int :=
  let guess : Int := digitCount r.num - digitCount r.den
  if r.reaches guess then guess else guess - 1

/-- The nearest value with `places` digits after the first one; a tie goes to the even digit. -/
def Ratio.scientific (places : Nat) (r : Ratio) : Scientific :=
  if r.num = 0 then
    ⟨0, places, 0⟩
  else
    let k := r.decade
    let c := (r.scale (places - k)).round
    if c = tenTo (places + 1) then ⟨tenTo places, places, k + 1⟩ else ⟨c, places, k⟩

/-- The nearest multiple of `10 ^ -places`, counted in that unit; a tie goes to the even one. -/
def Ratio.fixed (places : Nat) (r : Ratio) : Nat := (r.scale places).round

/-- Whether `c * 10 ^ k` reads back to the magnitude: it lies between the midpoints to the two
neighbouring magnitudes, the midpoints included exactly when the mantissa is even. The midpoints
are counted in quarters of the mantissa's unit. -/
def Magnitude.readsBack (m : Magnitude) (c : Nat) (k : Int) : Bool :=
  let unit := m.exponent - 2
  let candidate := c * tenTo k.toNat * twoTo (-unit).toNat
  let quarter := tenTo (-k).toNat * twoTo unit.toNat
  let lower := (4 * m.mantissa - if m.narrow then 1 else 2) * quarter
  let upper := (4 * m.mantissa + 2) * quarter
  if m.mantissa % 2 = 0 then
    lower ≤ candidate && candidate ≤ upper
  else
    lower < candidate && candidate < upper

/-- The nearer of the two neighbours of `r` on the grid of `10 ^ k`, among those that read back
to `m`; a tie goes to the even one. -/
def Magnitude.onGrid (m : Magnitude) (r : Ratio) (k : Int) : Option Nat :=
  let s := r.scale (-k)
  let below := s.num / s.den
  match m.readsBack below k, m.readsBack (below + 1) k with
  | false, false => none
  | true, false => some below
  | false, true => some (below + 1)
  | true, true => some s.round

/-- The fewest digits that read back to the magnitude, and of those the nearest. The grids are
tried from coarse to fine; seventeen digits always suffice for the 64-bit format. -/
def Magnitude.shortest (m : Magnitude) : Scientific :=
  if m.mantissa = 0 then
    ⟨0, 0, 0⟩
  else
    let r := m.ratio
    let k := r.decade
    let hit := (List.range 17).findSome? fun (places : Nat) =>
      (m.onGrid r (k - places)).map fun c =>
        if c = tenTo (places + 1) then (⟨1, 0, k + 1⟩ : Scientific) else ⟨c, places, k⟩
    hit.getD (r.scientific 16)

/-- The digits with `places` of them after the first one: those that read back to the magnitude
where some do, and of those the nearest, else the nearest ones. -/
def Magnitude.atPlaces (places : Nat) (m : Magnitude) : Scientific :=
  if m.mantissa = 0 then
    ⟨0, places, 0⟩
  else
    let r := m.ratio
    let k := r.decade
    let c := (m.onGrid r (k - places)).getD (r.scale (places - k)).round
    if c = tenTo (places + 1) then ⟨tenTo places, places, k + 1⟩ else ⟨c, places, k⟩

end DiffGraph.Decimal
