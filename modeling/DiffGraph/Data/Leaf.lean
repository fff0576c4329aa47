import DiffGraph.Data.Discovery

/-!
# Making tensors from data

A leaf of a calculation graph holds a tensor that was made from client data. Exact numbers are
rounded to the element type asked for; complex data stays complex even if that type is real.
-/

namespace DiffGraph

/-- The data as an array in the common type of its entries. -/
def Datum.toArray : Datum → Except TensorError NumArray
  | .array a => .ok a.value
  | .entry a => .ok a
  | d => do
    let s ← d.shape
    let numbers := d.numbers.toArray
    match ElementType.common d.types with
    | .integral k =>
      return .integral k (.ofFn s fun i =>
        ((numbers[s.offset i]?).map Number.toInt).getD 0)
    | .floating c =>
      return .floating ⟨c, .ofFn s fun i =>
        ((numbers[s.offset i]?).map (Number.toMachine c c)).getD (Arithmetic.zero c)⟩
    | e => throw (.notNumbers e.name)

/-- The element type of a tensor that is made from an array when `d` is asked for. -/
def NumArray.targetType (d : DType) : NumArray → DType
  | .integral _ _ => d
  | .floating t => if t.dtype.field = .complex ∧ d.field = .real then t.dtype.join d else d

def intoTensor (d : DType) (v : Datum) : Except TensorError (Tensor Machine) := do
  if !v.isNumeric then throw (.notNumeric v.typeName)
  let a ← v.toArray
  return a.toTensor (a.targetType d)

/-- The array in another element type. Real numbers are cut off to exact ones; complex numbers stay
complex. -/
def NumArray.convert (e : ElementType) (a : NumArray) : Except TensorError NumArray :=
  match e, a with
  | .floating d, a => .ok (.floating (a.toTensor (a.targetType d)))
  | .integral k, .integral _ g => .ok (.integral k (g.map k.wrap))
  | .integral k, .floating t =>
    if t.dtype.field = .real then
      .ok (.integral k (t.grid.map fun x => k.cutOff x.toComplex.re))
    else .ok (.floating (t.cast (t.dtype.join ⟨.complex, k.realWidth⟩)))
  | e, _ => .error (.notNumbers e.name)

/-- The array, if it has a rank. -/
def NumArray.ofRank (rank : Nat) (a : NumArray) : Except TensorError NumArray :=
  if a.rank = rank then .ok a else .error (.rankMismatch a.rank rank)

/-- Makes a tensor of rank 0 from data. -/
def scalarTensor (d : DType) (v : Datum) : Except TensorError (Tensor Machine) := do
  let t ← intoTensor d v
  if t.rank = 0 then return t else throw (.rankMismatch t.rank 0)

/-- Makes a tensor of rank 1 from data that can be run through. -/
def vectorTensor (d : DType) (v : Datum) : Except TensorError (Tensor Machine) := do
  let items ← v.items
  let t ← intoTensor d (.list items)
  if t.rank = 1 then return t else throw (.rankMismatch t.rank 1)

/-- The single entry of data of rank 0, as data. -/
def Datum.asScalar (v : Datum) : Except TensorError Datum := do
  let s ← v.shape
  if s.length ≠ 0 then throw (.rankMismatch s.length 0)
  match v with
  | .array a => return ofEntry a.value
  | .entry a => return ofEntry a
  | v => return v
where
  /-- The single entry of an array, without its element type. -/
  ofEntry : NumArray → Datum
    | .integral .bool g => .bool (g.get 0 [] != 0)
    | .integral _ g => .int (g.get 0 [])
    | .floating t =>
      let z := (t.grid.get (Arithmetic.zero t.dtype) []).toComplex
      if t.dtype.field = .real then .real z.re else .complex z

/-- The shape that a list of whole numbers asks for. A negative extent is an open one. -/
def Datum.openShape (v : Datum) : Except TensorError OpenShape := do
  let extents ← (← v.items).mapM fun
    | .int i => .ok i
    | .bool b => .ok (if b then 1 else 0)
    | .array a => (a.value.entry?).elim (.error (.notWhole "ndarray")) .ok
    | .entry a => (a.entry?).elim (.error (.notWhole (Datum.entry a).typeName)) .ok
    | d => .error (.notWhole d.typeName)
  return .ofInts extents

/-- Data of rank 1, as it is. -/
def Datum.asVector (v : Datum) : Except TensorError Datum := do
  let s ← v.shape
  if s.length ≠ 1 then throw (.rankMismatch s.length 1)
  return v

end DiffGraph
