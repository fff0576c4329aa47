import DiffGraph.Data.NumArray
import DiffGraph.Data.Stored

/-!
# Client data

The untyped data that clients hand in as values of leaves: numbers, texts, nested lists, arrays. A
number that was computed from arrays keeps its element type; it is data of its own kind.
-/

namespace DiffGraph

/-- A piece of client data. -/
inductive Datum where
  | null
  | bool (b : Bool)
  | int (i : Int)
  | real (x : Float)
  | complex (z : Complex Float)
  | text (s : String)
  | list (items : List Datum)
  | tuple (items : List Datum)
  | dict (entries : List (String × Datum))
  | array (a : Stored NumArray)
  /-- The only number of an array of rank 0, by itself. -/
  | entry (a : NumArray)

namespace Datum

def ofArray (a : NumArray) : Datum := .array (.native a)

/-- The result of a computation on arrays as data. -/
def ofResult (a : NumArray) : Datum := if a.rank = 0 then .entry a else ofArray a

/-- The name of the kind of data. -/
def typeName : Datum → String
  | .null => "NoneType"
  | .bool _ => "bool"
  | .int _ => "int"
  | .real _ => "float"
  | .complex _ => "complex"
  | .text _ => "str"
  | .list _ => "list"
  | .tuple _ => "tuple"
  | .dict _ => "dict"
  | .array _ => "ndarray"
  | .entry a => "numpy." ++ a.elementType.name

/-- Whether the data is of a kind that tensors are made from. A truth value that was taken out of an
array is no number by itself; in a list it is one. -/
def isNumeric : Datum → Bool
  | .null | .text _ | .dict _ | .entry (.integral .bool _) => false
  | _ => true

/-- The element type of an integer: the narrowest of the signed and the unsigned 64-bit one that
holds it. Beyond both it is an object. -/
def intType (i : Int) : ElementType :=
  if (Integral.signed 64).wrap i = i then .integral (.signed 64)
  else if (Integral.unsigned 64).wrap i = i then .integral (.unsigned 64)
  else .object

mutual

/-- The element types of the entries, in order. An array counts once, with or without entries. -/
def types : Datum → List ElementType
  | .null => [.object]
  | .bool _ => [.integral .bool]
  | .int i => [intType i]
  | .real _ => [.floating .float64]
  | .complex _ => [.floating .complex128]
  | .text s => [.text (max 1 s.length)]
  | .list items => typesAll items
  | .tuple items => typesAll items
  | .dict _ => [.object]
  | .array a => [a.value.elementType]
  | .entry a => [a.elementType]

/-- The element types of the entries of a list. -/
def typesAll : List Datum → List ElementType
  | [] => []
  | d :: ds => types d ++ typesAll ds

end

mutual

/-- The numbers among the entries, in order. -/
def numbers : Datum → List Number
  | .bool b => [.integer (if b then 1 else 0)]
  | .int i => [.integer i]
  | .real x => [.floating .float64 (.float64 x)]
  | .complex z => [.floating .complex128 (.complex128 z)]
  | .list items => numbersAll items
  | .tuple items => numbersAll items
  | .array a => a.value.numbers
  | .entry a => a.numbers
  | _ => []

/-- The numbers among the entries of a list. -/
def numbersAll : List Datum → List Number
  | [] => []
  | d :: ds => numbers d ++ numbersAll ds

end

/-- The items of data that can be run through: of a list, the characters of a text, the keys of a
dictionary, the parts of an array along its first axis. -/
def items : Datum → Except TensorError (List Datum)
  | .list ds => .ok ds
  | .tuple ds => .ok ds
  | .text s => .ok (s.toList.map fun c => .text (String.singleton c))
  | .dict es => .ok (es.map fun e => .text e.1)
  | .array a =>
    if a.value.rank = 0 then .error .rankZeroIteration
    else if a.value.rank = 1 then .ok (a.value.parts.map .entry)
    else .ok (a.value.parts.map fun part => .array ⟨part, a.order⟩)
  | d => .error (.notIterable d.typeName)

end Datum

end DiffGraph
