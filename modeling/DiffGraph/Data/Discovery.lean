import DiffGraph.Data.Datum

/-!
# The shape of nested data

Nested lists have a shape when all lists on one level are of one length. The data is run through
in order, depth first. The first branch fixes the extents; an item that disagrees with them cuts
the levels on which all items agree, and the data is ragged. Below an empty list there are no
levels: an array that has some where another item is an empty list does not fit.
-/

namespace DiffGraph

/-- What is known of the shape of nested data. -/
structure Outline where
  /-- The number of levels that are agreed on so far. -/
  limit : Nat
  /-- The extent of each level met on the first branch. -/
  extents : List Nat
  /-- The end of the first branch has been reached. -/
  settled : Bool
  /-- Some item disagrees with the first branch. -/
  ragged : Bool
deriving Repr, DecidableEq

namespace Outline

/-- Nothing is known but the greatest rank. -/
def start : Outline := ⟨maxRank, [], false, false⟩

/-- A list of `n` items on a level, and whether its items are to be looked at. -/
def enter (level n : Nat) (o : Outline) : Outline × Bool :=
  if o.limit < level + 1 then ({ o with ragged := true }, false)
  else if o.settled then
    if o.extents[level]? = some n then
      if n = 0 then ({ o with limit := level + 1 }, false) else (o, true)
    else ({ o with limit := level, ragged := true }, false)
  else
    let o := { o with extents := o.extents ++ [n] }
    if n = 0 then ({ o with limit := level + 1, settled := true }, false) else (o, true)

/-- The number of leading extents that two lists share. -/
def agreement : List Nat → List Nat → Nat
  | m :: ms, n :: ns => if m = n then agreement ms ns + 1 else 0
  | _, _ => 0

/-- An entry on a level, with the shape that it has of its own. -/
def leaf (level : Nat) (s : Shape) (o : Outline) : Outline :=
  if o.settled then
    let room := o.limit - level
    let shared := agreement (o.extents.drop level) (s.take room)
    let limit := min o.limit (level + s.length)
    { o with
      ragged := o.ragged || o.limit != level + s.length || shared != min room s.length
      limit := if shared = min room s.length then limit else level + shared }
  else
    { o with
      extents := o.extents ++ s.take (o.limit - level)
      ragged := o.ragged || o.limit < level + s.length
      limit := min o.limit (level + s.length)
      settled := true }

/-- The shape that is agreed on. -/
def shape (o : Outline) : Shape := o.extents.take o.limit

mutual

/-- Looks at a piece of data on a level. -/
def visit (level : Nat) (o : Outline) : Datum → Outline
  | .list items =>
    let (o, inside) := o.enter level items.length
    if inside then visitAll (level + 1) o items else o
  | .tuple items =>
    let (o, inside) := o.enter level items.length
    if inside then visitAll (level + 1) o items else o
  | .array a => o.leaf level a.value.shape
  | _ => o.leaf level []

/-- Looks at the items of a list, one after the other. -/
def visitAll (level : Nat) (o : Outline) : List Datum → Outline
  | [] => o
  | d :: ds => visitAll level (visit level o d) ds

end

/-- The outline of a piece of data. -/
def ofDatum (d : Datum) : Outline := visit 0 start d

end Outline

/-- A shape without as many leading axes of extent 1 as it has axes too many. -/
def Shape.trimmed (rank : Nat) : Shape → Shape
  | 1 :: s => if rank ≤ s.length then trimmed rank s else 1 :: s
  | s => s

namespace Datum

mutual

/-- The first array that has more axes than there are levels for it, with the room that there
is. -/
def misfit (room : Shape) : Datum → Option (Shape × Shape)
  | .list items => misfitAll (room.drop 1) items
  | .tuple items => misfitAll (room.drop 1) items
  | .array a =>
    if room.length < a.value.rank then some (a.value.shape.trimmed room.length, room) else none
  | _ => none

/-- The first such array among the items of a list. -/
def misfitAll (room : Shape) : List Datum → Option (Shape × Shape)
  | [] => none
  | d :: ds => (misfit room d).or (misfitAll room ds)

end

/-- The shape of nested data, if all levels agree. -/
def shape (d : Datum) : Except TensorError Shape :=
  let o := Outline.ofDatum d
  if o.ragged then
    .error (if o.limit = maxRank then .tooDeep else .ragged o.shape)
  else
    match d.misfit o.shape with
    | some (s, room) => .error (.notAssignable s room)
    | none => .ok o.shape

end Datum

end DiffGraph
