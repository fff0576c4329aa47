import DiffGraph.Tensor.Grid
import DiffGraph.Tensor.Error

/-!
# Bringing a gradient back to an operand's shape

Broadcasting reads an entry of an operand several times; its gradient is the sum over those
readings. `Grid.reduceTo` sums the axes that broadcasting added or stretched and then gives the
entries the operand's shape. A gradient of lower rank is spread instead. A client may ask for a
shape with an open extent, which takes what the others leave.
-/

namespace DiffGraph.Grid

variable {α : Type}

/-- Which axes of a gradient of shape `g` are summed for an operand of shape `s`: the leading
axes that `s` lacks, and those where `s` has the extent 1 and `g` has not. -/
def stretchedAxes (g s : Shape) : List Bool :=
  List.replicate (g.length - s.length) true ++
    List.zipWith (fun m n => n == 1 && m != 1) (g.drop (g.length - s.length)) s

/-- The gradient summed over the axes that an operand of shape `s` lacks or has stretched. -/
def summedFor (zero : α) (add : α → α → α) (s : Shape) (g : Grid α) : Grid α :=
  let marks := stretchedAxes g.shape s
  if marks.contains true then g.sumAxes zero add marks else g

/-- The same entries in another shape, if it has the same size. -/
def reshape? (s : Shape) (g : Grid α) : Except TensorError (Grid α) :=
  if h : g.shape.size = s.size then .ok (g.reshape s h)
  else .error (.notReshapable g.shape.size s)

/-- The gradient in the operand's shape. -/
def reduceTo (zero : α) (add : α → α → α) (s : Shape) (g : Grid α) :
    Except TensorError (Grid α) :=
  if g.shape = s then .ok g
  else if g.rank < s.length then
    if g.shape.spreads s then .ok (g.spread zero s)
    else .error (.notSpreadable g.shape s)
  else
    (g.summedFor zero add s).reshape? s

/-- The same entries in a shape whose open extent takes what is left. -/
def complete (s : OpenShape) (g : Grid α) : Except TensorError (Grid α) :=
  if 1 < s.countP Option.isNone then .error .severalOpen
  else
    let known := (s.filled 1).size
    let s' := s.filled (g.shape.size / known)
    if h : g.shape.size = s'.size then
      if known = 0 then .error (.notCompletable g.shape.size s) else .ok (g.reshape s' h)
    else .error (.notCompletable g.shape.size s)

/-- The gradient in a shape that may leave an extent open. An open extent is not stretched. -/
def reduceToOpen (zero : α) (add : α → α → α) (s : OpenShape) (g : Grid α) :
    Except TensorError (Grid α) :=
  match s.closed? with
  | some s => g.reduceTo zero add s
  | none =>
    if g.rank < s.length then .error .openTarget
    else (g.summedFor zero add (s.filled 0)).complete s

end DiffGraph.Grid
