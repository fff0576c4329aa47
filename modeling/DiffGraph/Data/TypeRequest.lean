import DiffGraph.Data.Literal
import DiffGraph.Data.Leaf
import DiffGraph.Data.TypeName

/-!
# Types asked for by clients

A client asks for a type by its name. Other data is mostly refused; only an empty list or
dictionary means a type too, the record without fields.
-/

namespace DiffGraph

/-- Why data means no type. -/
inductive TypeRequestError where
  /-- The name is no name of a type. -/
  | misnamed (cause : TypeNameError)
  /-- The data is no name. -/
  | notAName (literal : String)
  /-- A field of a record is not given by its name and type. -/
  | notAField (literal : String)
  /-- A field of a record has an entry of no length; its type is named. -/
  | noLength (typeName : String)
  /-- A field of a record has an entry that is no pair. -/
  | notAPair
  /-- An array was given. -/
  | array
  /-- The type is none of numbers. -/
  | notNumeric (shown : String)
deriving Repr, DecidableEq

def TypeRequestError.message : TypeRequestError → String
  | .misnamed e => e.message
  | .notAName literal => "Cannot interpret '" ++ literal ++ "' as a data type"
  | .notAField literal => "Field elements must be 2- or 3-tuples, got '" ++ literal ++ "'"
  | .noLength typeName => "object of type '" ++ typeName ++ "' has no len()"
  | .notAPair => "entry not a 2- or 3- tuple"
  | .array => "Cannot construct a dtype from an array"
  | .notNumeric shown => "Tensor values must be numeric, but got dtype " ++ shown

/-- Why data is not converted to a type that is asked for. -/
inductive ConversionError where
  | data (cause : TensorError)
  | type (cause : TypeRequestError)
deriving Repr, DecidableEq

namespace Datum

/-- The type that is meant; nothing means the double-width real numbers. -/
def typeMeant : Datum → Except TypeRequestError ArrayType
  | .null => .ok (.entry (.native (.floating .float64)))
  | .text name => (ArrayType.ofName name).mapError .misnamed
  | .list [] | .dict [] => .ok (.record [])
  | .list (d :: _) => .error (.notAField (Literal.datum d))
  | .dict (e :: _) =>
    match e.2 with
    | .null | .bool _ | .int _ | .real _ | .complex _ => .error (.noLength e.2.typeName)
    | _ => .error .notAPair
  | .array _ => .error .array
  | d => .error (.notAName (Literal.datum d))

/-- The element type of numbers that is meant. -/
def numericType (d : Datum) : Except TypeRequestError ElementType := do
  match ← d.typeMeant with
  | .entry ⟨.floating d, _⟩ => return .floating d
  | .entry ⟨.integral k, _⟩ => return .integral k
  | t => throw (.notNumeric t.text)

/-- An array of the type that is asked for. The data is looked at before the type. -/
def convertAs (type v : Datum) : Except ConversionError NumArray := do
  if !v.isNumeric then throw (.data (.notNumeric v.typeName))
  let a ← v.toArray.mapError .data
  let e ← type.numericType.mapError .type
  (a.convert e).mapError .data

/-- An array of rank 0 of the type that is asked for. -/
def scalarAs (type v : Datum) : Except ConversionError NumArray := do
  let a ← convertAs type v
  (a.ofRank 0).mapError .data

/-- An array of rank 1 of the type that is asked for, from data that can be run through. -/
def vectorAs (type v : Datum) : Except ConversionError NumArray := do
  let items ← v.items.mapError .data
  let a ← convertAs type (.list items)
  (a.ofRank 1).mapError .data

end Datum

end DiffGraph
