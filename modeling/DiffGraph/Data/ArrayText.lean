import DiffGraph.Data.ColumnText
import DiffGraph.Data.NumArray
import DiffGraph.Data.Stored

/-!
# Texts of arrays

An array is written with a bracket for each axis, in lines of limited width, and with its element
type where the entries do not show it. Of a long array only the ends of each axis are written.
-/

namespace DiffGraph.ArrayText

open Text ColumnText

/-- The widest line. -/
def lineWidth : Nat := 75

/-- The most entries that are written in full. -/
def threshold : Nat := 1000

/-- How many entries at each end of an axis of a long array are written. -/
def edge : Nat := 3

/-- What opens the text of an array. -/
def opening : String := "array("

/-- The places on an axis that are written; `none` stands for those left out. -/
def places (long : Bool) (n : Nat) : List (Option Nat) :=
  if long && 2 * edge < n then
    (List.range edge).map some ++ [none] ++ (List.range edge).map fun i => some (n - edge + i)
  else
    (List.range n).map some

/-- The positions of the entries that are written. -/
def shownIndices (long : Bool) : Shape → List (List Nat)
  | [] => [[]]
  | n :: s => (places long n).reduceOption.flatMap fun i => (shownIndices long s).map (i :: ·)

/-- Appends a word to the current line, or starts a new line with it where the line would become
too long. -/
def appendWord (width : Nat) (indent : String) (word : String) (done line : String) :
    String × String :=
  if width < line.length + word.length && indent.length < line.length then
    (done ++ line.trimAsciiEnd.toString ++ "\n", indent ++ word)
  else
    (done, line ++ word)

/-- The words of a row, separated by commas and broken into lines. -/
def rowText (width : Nat) (indent : String) (words : List String) (done line : String) : String :=
  match words with
  | [] => done ++ line
  | [word] =>
    let (done, line) := appendWord width indent word done line
    done ++ line
  | word :: rest =>
    let (done, line) := appendWord width indent word done line
    rowText width indent rest done (line ++ ", ")

/-- The text of the part of an array at a position. `indent` holds the blanks below the opening
bracket. -/
def blockText (long : Bool) (entry : List Nat → String) :
    Shape → (position : List Nat) → (indent : String) → (width : Nat) → String
  | [], position, _, _ => entry position.reverse
  | [n], position, indent, width =>
    let words := (places long n).map fun i =>
      i.elim "..." fun i => entry (i :: position).reverse
    let text := rowText (width - 1) indent words "" indent
    "[" ++ (text.drop indent.length).toString ++ "]"
  | n :: m :: s, position, indent, width =>
    let blocks := (places long n).map fun i =>
      i.elim "..." fun i =>
        blockText long entry (m :: s) (i :: position) (indent ++ " ") (width - 1)
    let separator := "," ++ repeated '\n' (s.length + 1) ++ indent
    "[" ++ separated separator blocks ++ "]"

/-- Joins the two components of a complex number; the unit follows the digits. -/
def joinComponents (re im : String) : String :=
  let digits := im.trimAsciiEnd.toString
  re ++ digits ++ "j" ++ repeated ' ' (im.length - digits.length)

/-- The text of each entry of a tensor, in columns fitted to the entries at the given
positions. -/
def tensorEntry (t : Tensor Machine) (shown : List (List Nat)) : List Nat → String :=
  let value := fun i => (t.grid.get (Arithmetic.zero t.dtype) i).toComplex
  let w := t.dtype.width
  let re := column w .negativeOnly (shown.map fun i => (value i).re)
  match t.dtype.field with
  | .real => fun i => re.text w (value i).re
  | .complex =>
    let im := column w .always (shown.map fun i => (value i).im)
    fun i => joinComponents (re.text w (value i).re) (im.text w (value i).im)

/-- The text of an exact number; truth values are words. -/
def exactText (k : Integral) (i : Int) : String :=
  if k = .bool then (if i = 0 then "False" else "True") else toString i

/-- The text of each entry of a grid of exact numbers, aligned on the right. -/
def exactEntry (k : Integral) (g : Grid Int) (shown : List (List Nat)) : List Nat → String :=
  let width := greatest (shown.map fun i => (exactText k (g.get 0 i)).length)
  let width := if k = .bool && g.rank != 0 then 5 else width
  fun i => alignRight width (exactText k (g.get 0 i))

/-- Whether the entries show the element type. They never show a foreign order of bytes. -/
def isImplied : Stored ElementType → Bool
  | ⟨.integral .bool, .little⟩ => true
  | ⟨.integral (.signed 64), .little⟩ => true
  | ⟨.floating d, .little⟩ => d.width = .double
  | _ => false

/-- The element type in the text of an array: its name, or in a foreign order of bytes its code
with the mark of the order. -/
def typeText (e : Stored ElementType) : String :=
  match e.order with
  | .little => e.value.name
  | .big => "'" ++ e.order.mark ++ e.value.code ++ "'"

def text (stored : Stored NumArray) : String :=
  let a := stored.value
  let s := a.shape
  let e := stored.map NumArray.elementType
  let long := threshold < s.size
  let shown := shownIndices long s
  let entry := match a with
    | .integral k g => exactEntry k g shown
    | .floating t => tensorEntry t shown
  let body := if s.size = 0 then "[]"
    else blockText long entry s [] (repeated ' ' (opening.length + 1)) (lineWidth - 1)
  let shapeNote := if (s.size = 0 && s != [0]) || long then ["shape=" ++ s.spaced] else []
  let typeNote :=
    if !isImplied e || s.size = 0 then ["dtype=" ++ typeText e] else []
  match shapeNote ++ typeNote with
  | [] => opening ++ body ++ ")"
  | notes =>
    let start := opening ++ body ++ ","
    let lastLine := (start.toList.reverse.takeWhile (· != '\n')).length
    let note := separated ", " notes ++ ")"
    let gap := if lineWidth < lastLine + note.length + 1 then
      "\n" ++ repeated ' ' opening.length else " "
    start ++ gap ++ note

end DiffGraph.ArrayText
