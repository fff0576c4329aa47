import DiffGraph.Data.ElementType
import DiffGraph.Data.Stored
import DiffGraph.Tensor.Shape
import DiffGraph.Text.Align

/-!
# Types of entries

The types that an array can be asked to have: those of numbers, which tensors are made from, and
those of texts, times and blocks of bytes, which no tensor has. They are kept apart so that a
refusal can show what was asked for. Beside single types there are rows of one type, and records
of several. Floating-point types are those of single and double width only.
-/

namespace DiffGraph

open Text

/-- A unit of time and how many of it are counted as one. -/
structure TimeUnit where
  multiple : Int
  name : String
deriving Repr, DecidableEq

/-- The unit in brackets; a multiple of one is not written. -/
def TimeUnit.text (u : TimeUnit) : String :=
  "[" ++ (if u.multiple = 1 then "" else toString u.multiple) ++ u.name ++ "]"

/-- The type of a single entry. -/
inductive EntryType where
  | floating (d : DType)
  | integral (k : Integral)
  | object
  /-- Texts of bytes of a length. -/
  | bytes (length : Nat)
  /-- Texts of a length. -/
  | text (length : Nat)
  /-- Blocks of bytes of a length. -/
  | block (length : Nat)
  /-- Points in time; without a unit if none is set. -/
  | time (unit : Option TimeUnit)
  /-- Spans of time. -/
  | span (unit : Option TimeUnit)
  /-- Texts of any length. -/
  | openText
deriving Repr, DecidableEq

namespace EntryType

/-- Whether the entries are made of several bytes that can be stored in either order. -/
def hasOrder : EntryType → Bool
  | .floating _ | .text _ | .time _ | .span _ => true
  | .integral k => !k.isByte
  | _ => false

/-- The type of entries stored in an order; entries of one byte have none. -/
def stored (order : ByteOrder) (t : EntryType) : Stored EntryType :=
  if t.hasOrder then ⟨t, order⟩ else .native t

/-- The type with a length, if it is one of texts or blocks without. -/
def withLength (n : Nat) : EntryType → Option EntryType
  | .bytes 0 => some (.bytes n)
  | .text 0 => some (.text n)
  | .block 0 => some (.block n)
  | _ => none

/-- The length of a text, where it is set. -/
def lengthText (n : Nat) : String := if n = 0 then "" else toString n

/-- The text of the unit of a time. -/
def unitText (u : Option TimeUnit) : String := u.elim "" TimeUnit.text

/-- The code of a type, without the mark of the order. -/
def code : EntryType → String
  | .floating d => d.code
  | .integral k => if k = .bool then "?" else k.code
  | .object => "O"
  | .bytes n => "S" ++ lengthText n
  | .text n => "U" ++ lengthText n
  | .block n => "V" ++ lengthText n
  | .time u => "M8" ++ unitText u
  | .span u => "m8" ++ unitText u
  | .openText => "T"

end EntryType

/-- The code of a type with the mark of the order, in quotes. -/
def Stored.codeText (t : Stored EntryType) : String :=
  "'" ++ (if t.value.hasOrder then t.order.mark else "") ++ t.value.code ++ "'"

/-- The text that shows the type of a single entry: its name where it has one. -/
def Stored.typeText (t : Stored EntryType) : String :=
  match t.value, t.order with
  | .bytes n, _ => "|S" ++ toString n
  | .block n, _ => "|V" ++ toString n
  | .text n, order => order.mark ++ "U" ++ toString n
  | .object, _ => "object"
  | .openText, _ => "StringDType()"
  | .floating d, .little => d.name
  | .integral k, .little => k.name
  | .time u, .little => "datetime64" ++ EntryType.unitText u
  | .span u, .little => "timedelta64" ++ EntryType.unitText u
  | e, .big => ByteOrder.big.mark ++ e.code

/-- What an array can be asked to hold. -/
inductive ArrayType where
  /-- Single entries. -/
  | entry (t : Stored EntryType)
  /-- Rows of entries, of a shape of their own. -/
  | rows (t : Stored EntryType) (shape : Shape)
  /-- Records of entries or rows. -/
  | record (fields : List (Stored EntryType × Option Shape))
deriving Repr, DecidableEq

namespace ArrayType

/-- A field of a record, under its number. -/
def fieldText (i : Nat) (field : Stored EntryType × Option Shape) : String :=
  "('f" ++ toString i ++ "', " ++ field.1.codeText ++
    field.2.elim "" (fun s => ", " ++ s.spaced) ++ ")"

/-- The text that shows a type. -/
def text : ArrayType → String
  | .entry t => t.typeText
  | .rows t s => "(" ++ t.codeText ++ ", " ++ s.spaced ++ ")"
  | .record fields => "[" ++ separated ", " (fields.mapIdx fieldText) ++ "]"

def ofField : Stored EntryType × Option Shape → ArrayType
  | (t, none) => .entry t
  | (t, some s) => .rows t s

end ArrayType

end DiffGraph
