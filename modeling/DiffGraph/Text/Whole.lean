import DiffGraph.Decimal.Magnitude

/-!
# Whole numbers at the start of a text

A whole number may stand after blanks and a sign, and ends before the first character that is no
digit.
-/

namespace DiffGraph.Text

/-- The characters that are skipped before a number. -/
def isBlank (c : Char) : Bool := c = ' ' || (9 ≤ c.toNat && c.toNat ≤ 13)

/-- The value of a row of decimal digits. -/
def valueOfDigits (cs : List Char) : Nat := cs.foldl (fun n c => 10 * n + (c.toNat - '0'.toNat)) 0

/-- A row of digits at the start of a text, with what follows it. -/
def readDigits (cs : List Char) : Option (Nat × List Char) :=
  match cs.takeWhile Char.isDigit with
  | [] => none
  | digits => some (valueOfDigits digits, cs.dropWhile Char.isDigit)

/-- A whole number at the start of a text, with what follows it. -/
def readWhole (cs : List Char) : Option (Int × List Char) :=
  match cs.dropWhile isBlank with
  | '-' :: rest => (readDigits rest).map fun r => (-(r.1 : Int), r.2)
  | '+' :: rest => (readDigits rest).map fun r => ((r.1 : Int), r.2)
  | rest => (readDigits rest).map fun r => ((r.1 : Int), r.2)

/-- The greatest whole number that is accepted as a size or a multiple. -/
def greatestSize : Int := Decimal.twoTo 31 - 1

end DiffGraph.Text
