import DiffGraph.Data.EntryType
import DiffGraph.Text.Quoted
import DiffGraph.Text.Whole

/-!
# Names of types

A type is named in full, by a one-letter code, or by a kind and a size. A mark before a code sets
the order of the bytes. Times have a unit in brackets. Several codes separated by commas name a
record, and a number or a shape before a code names rows. Floating-point types of half width
(`float16`) and of more than double width (`longdouble`, `clongdouble`) are not among them, so that
their names and codes are refused like unknown ones.
-/

namespace DiffGraph

open Text

/-- Why a name is no name of a type. -/
inductive TypeNameError where
  /-- There is no type of this name. -/
  | unknown (name : String)
  /-- The name is no longer in use. -/
  | retired (name : String)
  /-- What follows the name of a time is no unit in brackets; the place of the fault is given. -/
  | malformedUnit (text : String) (place : Nat)
  /-- There is no unit of time of this name. -/
  | unknownUnit (text : String)
  /-- A part of a unit is no multiple of a smaller one. -/
  | indivisibleUnit (divisor : Int) (text : String)
  /-- A code in a list is followed by something else. -/
  | malformedList (place : Nat) (text : String)
  /-- A code has two marks that differ. -/
  | conflictingOrders (first second : String)
  /-- What stands before a code is neither a number nor a shape. -/
  | malformedShape
deriving Repr, DecidableEq

def TypeNameError.message : TypeNameError → String
  | .unknown name => "data type " ++ quoted name ++ " not understood"
  | .retired name =>
    "Alias " ++ quoted name ++ " was removed in NumPy 2.0. Use a name without a digit at the end."
  | .malformedUnit s place =>
    "Invalid datetime metadata string \"" ++ s ++ "\" at position " ++ toString place
  | .unknownUnit s => "Invalid datetime unit in metadata string \"" ++ s ++ "\""
  | .indivisibleUnit n s =>
    "divisor (" ++ toString n ++
      ") is not a multiple of a lower-unit in datetime metadata \"" ++ s ++ "\""
  | .malformedList place s =>
    "format number " ++ toString place ++ " of \"" ++ s ++ "\" is not recognized"
  | .conflictingOrders first second =>
    "inconsistent byte-order specification " ++ first ++ " and " ++ second
  | .malformedShape => "invalid syntax (<unknown>, line 1)"

namespace EntryType

/-- The types by their full names. -/
def fullNames : List (String × EntryType) :=
  [("float32", .floating .float32), ("single", .floating .float32),
    ("float64", .floating .float64), ("double", .floating .float64),
    ("float", .floating .float64),
    ("complex64", .floating .complex64), ("csingle", .floating .complex64),
    ("complex128", .floating .complex128), ("cdouble", .floating .complex128),
    ("complex", .floating .complex128),
    ("bool", .integral .bool), ("bool_", .integral .bool),
    ("int8", .integral (.signed 8)), ("byte", .integral (.signed 8)),
    ("int16", .integral (.signed 16)), ("short", .integral (.signed 16)),
    ("int32", .integral (.signed 32)), ("intc", .integral (.signed 32)),
    ("int64", .integral (.signed 64)), ("int", .integral (.signed 64)),
    ("int_", .integral (.signed 64)), ("intp", .integral (.signed 64)),
    ("long", .integral (.signed 64)), ("longlong", .integral (.signed 64)),
    ("uint8", .integral (.unsigned 8)), ("ubyte", .integral (.unsigned 8)),
    ("uint16", .integral (.unsigned 16)), ("ushort", .integral (.unsigned 16)),
    ("uint32", .integral (.unsigned 32)), ("uintc", .integral (.unsigned 32)),
    ("uint64", .integral (.unsigned 64)), ("uint", .integral (.unsigned 64)),
    ("uintp", .integral (.unsigned 64)), ("ulong", .integral (.unsigned 64)),
    ("ulonglong", .integral (.unsigned 64)),
    ("object", .object), ("object_", .object),
    ("str", .text 0), ("str_", .text 0), ("unicode", .text 0),
    ("bytes", .bytes 0), ("bytes_", .bytes 0), ("void", .block 0)]

/-- The types by their one-letter codes. -/
def letters : List (Char × EntryType) :=
  [('f', .floating .float32), ('d', .floating .float64),
    ('F', .floating .complex64), ('D', .floating .complex128),
    ('?', .integral .bool), ('b', .integral (.signed 8)), ('h', .integral (.signed 16)),
    ('i', .integral (.signed 32)), ('l', .integral (.signed 64)), ('q', .integral (.signed 64)),
    ('p', .integral (.signed 64)), ('n', .integral (.signed 64)),
    ('B', .integral (.unsigned 8)), ('H', .integral (.unsigned 16)),
    ('I', .integral (.unsigned 32)), ('L', .integral (.unsigned 64)),
    ('Q', .integral (.unsigned 64)), ('P', .integral (.unsigned 64)),
    ('N', .integral (.unsigned 64)),
    ('O', .object), ('S', .bytes 0), ('a', .bytes 0), ('c', .bytes 1), ('U', .text 0),
    ('V', .block 0), ('M', .time none), ('m', .span none), ('T', .openText)]

/-- Names that were in use once. -/
def retiredNames : List String :=
  ["int0", "uint0", "void0", "object0", "str0", "bytes0", "bool8"]

/-- The type of a kind and a size: bytes for numbers, characters for texts. -/
def sized (kind : Char) (n : Nat) : Option EntryType :=
  match kind, n with
  | 'S', n => some (.bytes n)
  | 'a', n => some (.bytes n)
  | 'U', n => if 4 * n < Decimal.twoTo 31 then some (.text n) else none
  | 'V', n => some (.block n)
  | 'f', 4 => some (.floating .float32)
  | 'f', 8 => some (.floating .float64)
  | 'c', 8 => some (.floating .complex64)
  | 'c', 16 => some (.floating .complex128)
  | 'b', 1 => some (.integral .bool)
  | 'O', 4 => some .object
  | 'O', 8 => some .object
  | 'i', n => if [1, 2, 4, 8].contains n then some (.integral (.signed (8 * n))) else none
  | 'u', n => if [1, 2, 4, 8].contains n then some (.integral (.unsigned (8 * n))) else none
  | _, _ => none

/-- The type of a code: a letter, or a kind and a size. -/
def ofCode? : List Char → Option EntryType
  | [] => none
  | [c] => letters.lookup c
  | c :: size =>
    match readWhole size with
    | some (n, []) => if 0 ≤ n ∧ n ≤ greatestSize then sized c n.toNat else none
    | _ => none

/-- The units of time, from the greatest to the least. -/
def timeUnits : List String :=
  ["Y", "M", "W", "D", "h", "m", "s", "ms", "us", "ns", "ps", "fs", "as"]

/-- The unit that a name means; no unit in particular has a name too. -/
def unitOf? (s : String) : Option (Option String) :=
  if timeUnits.contains s then some (some s)
  else if s = "μs" then some (some "us")
  else if s = "generic" then some none
  else none

/-- The smaller units that a unit can be divided into, with their numbers. -/
def smallerUnits : String → List (Int × String)
  | "Y" => [(12, "M"), (52, "W"), (365, "D")]
  | "M" => [(4, "W"), (30, "D"), (720, "h")]
  | "W" => [(7, "D"), (168, "h"), (10080, "m"), (604800, "s")]
  | "D" => [(24, "h"), (1440, "m"), (86400, "s")]
  | "h" => [(60, "m"), (3600, "s")]
  | "m" => [(60, "s"), (60000, "ms")]
  | s =>
    let finer := (timeUnits.dropWhile (· != s)).drop 1
    List.zip [1000, 1000000] finer

/-- The number of bytes of a text. -/
def byteCount (cs : List Char) : Nat := (String.ofList cs).utf8ByteSize

/-- A unit of time divided by a number. -/
def divided (whole : List Char) (u : TimeUnit) (n : Int) : Except TypeNameError TimeUnit :=
  if n = 1 then .ok u
  else
    match (smallerUnits u.name).find? fun e => n ≠ 0 ∧ e.1 % n = 0 with
    | some (k, name) => .ok ⟨u.multiple * (k / n), name⟩
    | none => .error (.indivisibleUnit n (String.ofList whole))

/-- The unit between the brackets of a time: a multiple, a name, and possibly a divisor. `whole` is
the text with the brackets. -/
def unitInside (whole inside : List Char) : Except TypeNameError (Option TimeUnit) :=
  let faultAt := fun (rest : List Char) =>
    TypeNameError.malformedUnit (String.ofList whole) (1 + byteCount inside - byteCount rest)
  let (multiple, rest) := (readWhole inside).getD (1, inside)
  if multiple < 0 ∨ greatestSize < multiple then .error (faultAt inside)
  else
    let name := rest.takeWhile (· != '/')
    let rest := rest.dropWhile (· != '/')
    if name.isEmpty then .error (faultAt rest)
    else
      match unitOf? (String.ofList name), rest with
      | none, _ => .error (.unknownUnit (String.ofList whole))
      | some unit, [] => .ok (unit.map (⟨multiple, ·⟩))
      | some unit, _ :: divisor =>
        match readWhole divisor with
        | some (n, []) =>
          match unit with
          | some name => (divided whole ⟨multiple, name⟩ n).map some
          | none => .error (.indivisibleUnit n (String.ofList whole))
        | _ => .error (faultAt divisor)

/-- The unit of a time, from what follows its name. -/
def unitAfter (cs : List Char) : Except TypeNameError (Option TimeUnit) :=
  match cs with
  | [] => .ok none
  | '[' :: rest =>
    let inside := rest.takeWhile (· != ']')
    match rest.dropWhile (· != ']') with
    | [] => .error (.malformedUnit (String.ofList cs) (byteCount cs))
    | _ :: after => do
      let unit ← unitInside cs inside
      if after.isEmpty then return unit
      else throw (.malformedUnit (String.ofList cs) (byteCount inside + 2))
  | cs => .error (.malformedUnit (String.ofList cs) 1)

/-- The names of the types of times, with the types. -/
def timeNames : List (List Char × (Option TimeUnit → EntryType)) :=
  [("M8".toList, .time), ("m8".toList, .span), ("datetime64".toList, .time),
    ("timedelta64".toList, .span)]

/-- The type of times that a name begins with, and what follows. -/
def timeOf? (cs : List Char) : Option ((Option TimeUnit → EntryType) × List Char) :=
  timeNames.findSome? fun e =>
    if e.1.isPrefixOf cs then some (e.2, cs.drop e.1.length) else none

/-- The marks of an order of bytes. -/
def marks : List (Char × ByteOrder) :=
  [('<', .little), ('>', .big), ('=', .little), ('|', .little)]

/-- The order that a name begins with, and what follows. -/
def orderOf : List Char → ByteOrder × List Char
  | [] => (.little, [])
  | c :: rest => (marks.lookup c).elim (.little, c :: rest) (·, rest)

/-- The type that a name without commas means. -/
def ofName (name : String) : Except TypeNameError (Stored EntryType) :=
  let (order, rest) := orderOf name.toList
  match timeOf? rest, ofCode? rest, fullNames.lookup name with
  | some (type, after), _, _ => (unitAfter after).map fun u => (type u).stored order
  | none, some t, _ => .ok (t.stored order)
  | none, none, some t => .ok (.native t)
  | none, none, none =>
    .error (if retiredNames.contains (String.ofList rest) then .retired name else .unknown name)

end EntryType

namespace ArrayType

open EntryType

/-- Whether a name begins with a number or an empty shape, possibly after a mark. -/
def startsWithShape (cs : List Char) : Bool :=
  let begins := fun (cs : List Char) => (cs.head?.any Char.isDigit) || "()".toList.isPrefixOf cs
  begins cs || (marks.any (fun e => e.1 ∈ cs.head?) && begins (cs.drop 1))

/-- Whether there is a comma outside brackets; `depth` brackets are open. -/
def hasComma (depth : Int) : List Char → Bool
  | [] => false
  | ',' :: rest => depth = 0 || hasComma depth rest
  | '[' :: rest => hasComma (depth + 1) rest
  | ']' :: rest => hasComma (depth - 1) rest
  | _ :: rest => hasComma depth rest

/-- What stands before a code. -/
inductive Repeats where
  | once
  | count (n : Nat)
  | shape (s : Shape)
deriving Repr, DecidableEq

/-- A piece of text without the blanks around it. -/
def stripped (cs : List Char) : List Char :=
  ((cs.dropWhile isBlank).reverse.dropWhile isBlank).reverse

/-- The pieces of a text between commas. -/
def pieces (cs : List Char) : List (List Char) :=
  (cs.foldr (fun c (done : List (List Char)) =>
    if c = ',' then [] :: done else
      match done with
      | [] => [[c]]
      | piece :: rest => (c :: piece) :: rest) [[]]).map stripped

/-- A natural in its usual form. -/
def plainNatural? (cs : List Char) : Option Nat :=
  match readDigits cs with
  | some (n, []) => if cs.head? = some '0' && n != 0 then none else some n
  | _ => none

/-- The number or the shape that a text stands for. -/
def repeatsOf (cs : List Char) : Except TypeNameError Repeats :=
  let cs := stripped cs
  let bracketed := cs.head? = some '(' && cs.getLast? = some ')'
  let inside := if bracketed then (cs.drop 1).dropLast else cs
  let parts := pieces inside
  let parts := if 1 < parts.length && parts.getLast? = some [] then parts.dropLast else parts
  match bracketed, parts.mapM plainNatural? with
  | _, some ns =>
    if inside.contains ',' then .ok (.shape ns) else .ok (.count (ns.headD 0))
  | true, none => if stripped inside = [] then .ok (.shape []) else .error .malformedShape
  | false, none => .error .malformedShape

/-- One code of a list, with what stands before it and after it. -/
structure Format where
  order : String
  repeats : List Char
  order' : String
  name : List Char

/-- Whether a character belongs to the shape before a code. -/
def isShapeChar (c : Char) : Bool := c = ' ' || c = ',' || c.isDigit

/-- Whether a character belongs to a code. -/
def isCodeChar (c : Char) : Bool := c.isAlphanum || c = '.' || c = '?'

/-- Splits off the mark of an order. -/
def splitMark : List Char → String × List Char
  | c :: rest =>
    if ['<', '>', '|', '='].contains c then (String.singleton c, rest) else ("", c :: rest)
  | [] => ("", [])

def splitChar (c : Char) : List Char → List Char × List Char
  | d :: rest => if c = d then ([d], rest) else ([], d :: rest)
  | [] => ([], [])

/-- Splits off what stands before a code. -/
def splitShape (cs : List Char) : List Char × List Char :=
  let blanks := cs.takeWhile (· = ' ')
  let (opening, rest) := splitChar '(' (cs.dropWhile (· = ' '))
  let body := rest.takeWhile isShapeChar
  let (closing, rest) := splitChar ')' (rest.dropWhile isShapeChar)
  (blanks ++ opening ++ body ++ closing ++ rest.takeWhile (· = ' '), rest.dropWhile (· = ' '))

/-- Splits off a code, with brackets that may follow it. -/
def splitCode (cs : List Char) : List Char × List Char :=
  let word := cs.takeWhile isCodeChar
  match cs.dropWhile isCodeChar with
  | '[' :: rest =>
    let inside := rest.takeWhile fun c => isCodeChar c && c != '?' || c = ','
    match rest.drop inside.length with
    | ']' :: after => (word ++ '[' :: inside ++ [']'], after)
    | _ => (word, '[' :: rest)
  | rest => (word, rest)

/-- Splits off one code of a list. -/
def splitFormat (cs : List Char) : Format × List Char :=
  let (order, cs) := splitMark cs
  let (repeats, cs) := splitShape cs
  let (order', cs) := splitMark cs
  let (name, cs) := splitCode cs
  (⟨order, repeats, order', name⟩, cs)

/-- The one order that two marks mean. The machine's own order needs no mark. -/
def commonMark (first second : String) : Except TypeNameError String :=
  let plain := fun (s : String) => if s = "=" then "<" else s
  let mark := if second = "" then first else second
  if first != "" && second != "" && plain first != plain second then
    .error (.conflictingOrders (plain first) (plain second))
  else .ok (if mark = ">" then mark else "")

/-- The type with a shape. A single one is the type itself, and a text without a length takes a
number as its length. -/
def repeated (t : Stored EntryType) : Repeats → Stored EntryType × Option Shape
  | .once | .shape [] => (t, none)
  | .shape s => (t, some s)
  | .count n =>
    match t.value.withLength n with
    | some u => (⟨u, t.order⟩, none)
    | none => (t, if n = 1 then none else some [n])

/-- The mark, name and shape of a code of a list, before the names are looked up. -/
def Format.parts (f : Format) : Except TypeNameError (String × Repeats) := do
  let mark ← commonMark f.order f.order'
  let repeats ← if f.repeats.isEmpty then pure .once else repeatsOf f.repeats
  return (mark ++ String.ofList f.name, repeats)

/-- The codes of a list, and whether there are commas. `place` counts the codes; every further code
stands after a comma, so there are at most as many as characters. -/
def splitList (text : String) : (fuel place : Nat) → List Char →
    Except TypeNameError (List (String × Repeats) × Bool)
  | 0, _, _ => .ok ([], false)
  | _, _, [] => .ok ([], false)
  | fuel + 1, place, cs => do
    let (f, rest) := splitFormat cs
    let blankFree := rest.dropWhile isBlank
    match blankFree with
    | [] => return ([← f.parts], false)
    | ',' :: after =>
      let part ← f.parts
      let (parts, _) ← splitList text fuel (place + 1) (after.dropWhile isBlank)
      return (part :: parts, true)
    | _ => throw (.malformedList place text)

/-- The type that a name means. -/
def ofName (name : String) : Except TypeNameError ArrayType :=
  let cs := name.toList
  if startsWithShape cs || hasComma 0 cs then do
    let (parts, isRecord) ← splitList name (cs.length + 1) 1 cs
    let fields ← parts.mapM fun p => (EntryType.ofName p.1).map (repeated · p.2)
    match isRecord, fields with
    | false, [field] => return ofField field
    | _, fields => return .record fields
  else
    (EntryType.ofName name).map .entry

end ArrayType

end DiffGraph
