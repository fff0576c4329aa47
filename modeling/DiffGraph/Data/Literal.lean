import DiffGraph.Data.ArrayText
import DiffGraph.Data.Datum
import DiffGraph.Graph.Ref

/-!
# Literals

The text that shows a piece of client data unambiguously: numbers with the fewest digits that
read back, texts in quotes, lists in brackets. Data that stands where a node is meant and is neither
an index nor a name is kept as this text.
-/

namespace DiffGraph

namespace Literal

open Decimal Text

/-- The reading of a double-width number. -/
def reading (x : Float) : Reading := Format.double.read x.toBits.toNat

/-- The literal of a real number; one without fraction keeps a point. -/
def real (x : Float) : String := (reading x).shortest ".0"

/-- The literal of a complex number: the imaginary part alone where the real part is a positive
zero, else both in brackets. -/
def complex (z : Complex Float) : String :=
  let re := (reading z.re).shortest ""
  let im := (reading z.im).shortest ""
  if re = "0" then im ++ "j"
  else "(" ++ re ++ (if im.startsWith "-" then "" else "+") ++ im ++ "j)"

mutual

/-- The literal of a piece of data. -/
def datum : Datum → String
  | .null => "None"
  | .bool b => if b then "True" else "False"
  | .int i => toString i
  | .real x => real x
  | .complex z => complex z
  | .text s => quoted s
  | .list ds => "[" ++ separated ", " (data ds) ++ "]"
  | .tuple [d] => "(" ++ datum d ++ ",)"
  | .tuple ds => "(" ++ separated ", " (data ds) ++ ")"
  | .dict es => "\x7b" ++ separated ", " (entries es) ++ "\x7d"
  | .array a => ArrayText.text a
  | .entry a => ArrayText.text (.native a)

/-- The literals of the items of a list. -/
def data : List Datum → List String
  | [] => []
  | d :: ds => datum d :: data ds

/-- The literals of the entries of a dictionary. -/
def entries : List (String × Datum) → List String
  | [] => []
  | (k, d) :: es => (quoted k ++ ": " ++ datum d) :: entries es

end

end Literal

/-- The reference that a piece of data makes. A whole number is an index, also one that was taken
out of an array; a truth value is the index 0 or 1 and is shown as that number. A text is a name. -/
def Datum.toRef : Datum → Ref
  | .int i => .index i
  | .bool b => .index (if b then 1 else 0)
  | .text s => .name s
  | .array a => .array (ArrayText.text a) a.value.entry?
  | .entry a => a.entry?.elim (.other (Literal.datum (.entry a)) (Datum.entry a).typeName) .index
  | d => .other (Literal.datum d) d.typeName

end DiffGraph
