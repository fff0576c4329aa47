import DiffGraph.Data.Bare
import DiffGraph.Data.Leaf
import DiffGraph.Operator.Operations

/-!
# Arithmetic on client data

The operators can be applied to client data as it is, before any tensor is made from it. Bare
numbers then keep their own arithmetic, lists and texts are joined and repeated, and beside an
array all other data is an array: a bare number takes the array's element type as far as its kind
allows, nested lists have a type of their own. A single number that was computed from arrays
combines like an array, but it repeats a sequence as a bare number does.
-/

namespace DiffGraph

/-- The operations that combine two operands. -/
inductive Combination where
  | sum
  | product
  | quotient
deriving Repr, DecidableEq

namespace Combination

def symbol : Combination → String
  | .sum => "+"
  | .product => "*"
  | .quotient => "/"

/-- The name of an operation on arrays. -/
def name : Combination → String
  | .sum => "add"
  | .product => "multiply"
  | .quotient => "divide"

def bare : Combination → Bare → Bare → Except TensorError Bare
  | .sum => Bare.add
  | .product => Bare.mul
  | .quotient => Bare.div

/-- The operation on exact numbers, unless its results are not exact. -/
def exact : Combination → Option (Int → Int → Int)
  | .sum => some (· + ·)
  | .product => some (· * ·)
  | .quotient => none

def rounded : Combination → Tensor Machine → Tensor Machine → Except TensorError (Tensor Machine)
  | .sum => Tensor.add
  | .product => Tensor.mul
  | .quotient => Tensor.div

end Combination

/-- The floating-point type in which entries are combined that no exact type holds. -/
def ElementType.rounded : ElementType → DType
  | .floating d => d
  | _ => .float64

namespace NumArray

/-- Combines the entries that meet under broadcasting, in the common element type. Exact numbers
wrap around. -/
def combine (op : Combination) (l r : NumArray) : Except TensorError NumArray :=
  let e := l.elementType.join r.elementType
  match op.exact, e, l, r with
  | some f, .integral k, .integral _ g, .integral _ h =>
    match g.shape.broadcast h.shape with
    | none => .error (.notBroadcastable g.shape h.shape)
    | some s => .ok (.integral k (Grid.zip 0 0 (fun i j => k.wrap (f i j)) s g h))
  | _, _, _, _ => (op.rounded (l.toTensor e.rounded) (r.toTensor e.rounded)).map .floating

/-- The opposite numbers; truth values have none. -/
def neg : NumArray → Except TensorError NumArray
  | .integral .bool _ => .error .oppositeOfTruth
  | .integral k g => .ok (.integral k (g.map fun i => k.wrap (-i)))
  | .floating t => .ok (.floating t.neg)

/-- The conjugate numbers. Exact numbers are their own, and truth values become whole numbers. -/
def conj : NumArray → NumArray
  | .integral k g => .integral k.wholeType g
  | .floating t => .floating t.conj

/-- An elementary function of every entry. -/
def elementary (f : Elementary) : NumArray → NumArray
  | .integral k g => .floating (((integral k g).toTensor ⟨.real, k.functionWidth⟩).elementary f)
  | .floating t => .floating (t.elementary f)

/-- A bare number as an array of rank 0, in the element type that it takes beside an array. A whole
number has to be in the range of an exact type, unless the results are not exact. -/
def ofBare (op : Combination) (beside : NumArray) (b : Bare) : Except TensorError NumArray :=
  match beside, b with
  | .integral k _, .whole i =>
    if op.exact.isNone then
      (Bare.realOf i).map fun x => .floating (.single (Machine.float64 x))
    else if k = .bool then
      let k := Integral.signed 64
      if k.wrap i = i then .ok (.integral k (.single i)) else .error .outOfWord
    else if k.wrap i = i then .ok (.integral k (.single i))
    else if (Integral.signed 64).wrap i = i then .error (.outOfRange i k.name)
    else .error .outOfWord
  | .integral _ _, .real x => .ok (.floating (.single (Machine.float64 x)))
  | .integral _ _, .complex z => .ok (.floating (.single (Machine.complex128 z)))
  | .floating t, .whole i =>
    (Bare.realOf i).map fun x => .floating (.single (Machine.ofReal t.dtype x))
  | .floating t, .real x => .ok (.floating (.single (Machine.ofReal t.dtype x)))
  | .floating t, .complex z =>
    .ok (.floating (.single (Machine.ofComplex (t.dtype.withNumber .complex128) z)))

/-- The entries by themselves, in row-major order, without their element type. -/
def entries : NumArray → List Datum
  | .integral .bool g => g.data.toList.map fun i => .bool (i != 0)
  | .integral _ g => g.data.toList.map .int
  | .floating t => t.grid.data.toList.map fun x =>
    if t.dtype.field = .real then .real x.toComplex.re else .complex x.toComplex

end NumArray

namespace Datum

/-- The data as a bare number. Truth values count as whole numbers. -/
def bare? : Datum → Option Bare
  | .bool b => some (.whole (if b then 1 else 0))
  | .int i => some (.whole i)
  | .real x => some (.real x)
  | .complex z => some (.complex z)
  | _ => none

def ofBare : Bare → Datum
  | .whole i => .int i
  | .real x => .real x
  | .complex z => .complex z

/-- The element type of data that is no list. -/
def elementType : Datum → ElementType
  | d => .common d.types

/-- The data as an array beside another one. -/
def besideArray (op : Combination) (beside : NumArray) (refused : TensorError) (d : Datum) :
    Except TensorError NumArray :=
  match d with
  | .int i => NumArray.ofBare op beside (.whole i)
  | .real x => NumArray.ofBare op beside (.real x)
  | .complex z => NumArray.ofBare op beside (.complex z)
  | d =>
    match d.toArray with
    | .error (.notNumbers _) => .error refused
    | result => result

/-- The number of repetitions that a whole number stands for. -/
def count? : Datum → Option Int
  | .bool b => some (if b then 1 else 0)
  | .int i => some i
  | .entry a => a.entry?
  | _ => none

/-- The length of data that can be joined and repeated. -/
def length? : Datum → Option Nat
  | .list ds | .tuple ds => some ds.length
  | .text s => some s.length
  | _ => none

/-- The greatest length that a repetition is given. -/
def greatestLength : Nat := Decimal.twoTo 32

def times (n : Nat) : Datum → Datum
  | .list ds => .list (List.replicate n ds).flatten
  | .tuple ds => .tuple (List.replicate n ds).flatten
  | .text s => .text (String.join (List.replicate n s))
  | d => d

/-- A sequence repeated as often as other data says. -/
def repeatBy (sequence : Datum) (length : Nat) (count : Datum) : Except TensorError Datum :=
  match count.count? with
  | none => .error (.notRepeatable count.typeName)
  | some i =>
    if (Integral.signed 64).wrap i ≠ i then .error .outOfIndex
    else if greatestLength < length * i.toNat then .error .outOfMemory
    else .ok (sequence.times (if length = 0 then 0 else i.toNat))

/-- The product of data of which not both are numbers: a sequence and a number of repetitions. -/
def repeated (l r : Datum) : Except TensorError Datum :=
  match l.length?, r.length? with
  | some n, _ => l.repeatBy n r
  | none, some n => r.repeatBy n l
  | none, none => .error (.notCombinable Combination.product.symbol l.typeName r.typeName)

/-- The sum of data of which not both are numbers: two sequences of one type. -/
def joined (l r : Datum) : Except TensorError Datum :=
  match l, r with
  | .list ds, .list es => .ok (.list (ds ++ es))
  | .tuple ds, .tuple es => .ok (.tuple (ds ++ es))
  | .text s, .text t => .ok (.text (s ++ t))
  | l, r =>
    .error (if l.length?.isSome then .notJoinable l.typeName r.typeName
      else .notCombinable Combination.sum.symbol l.typeName r.typeName)

/-- The array that data is or was computed from. -/
def array? : Datum → Option NumArray
  | .array a => some a.value
  | .entry a => some a
  | _ => none

/-- Whether the product of two pieces of data is a repetition: of a sequence, by anything but an
array. -/
def isRepetition (l r : Datum) : Bool :=
  match l, r with
  | .array _, _ | _, .array _ => false
  | l, r => l.length?.isSome || r.length?.isSome

/-- Combines data that is no array. -/
def combinePlain (op : Combination) (l r : Datum) : Except TensorError Datum :=
  match l.bare?, r.bare?, op with
  | some x, some y, op => (op.bare x y).map ofBare
  | _, _, .sum => joined l r
  | _, _, .product => repeated l r
  | _, _, .quotient => .error (.notCombinable op.symbol l.typeName r.typeName)

mutual

/-- The entries of data, in order, without the element types of arrays. -/
def leaves : Datum → List Datum
  | .list ds => leavesAll ds
  | .tuple ds => leavesAll ds
  | .array a => a.value.entries
  | .entry a => a.entries
  | d => [d]

/-- The entries of a list of data. -/
def leavesAll : List Datum → List Datum
  | [] => []
  | d :: ds => leaves d ++ leavesAll ds

end

/-- The entries of data of a shape as a grid. -/
def grid (s : Shape) (d : Datum) : Grid Datum :=
  let leaves := d.leaves.toArray
  .ofFn s fun i => leaves.getD (s.offset i) .null

/-- Combines data beside an array entry by entry, as objects. The first entries that cannot be
combined decide; beyond that, objects make no array of numbers. -/
def combineObjects (op : Combination) (l r : Datum) : Except TensorError Datum := do
  let s ← l.shape
  let t ← r.shape
  match s.broadcast t with
  | none => throw (.notBroadcastable s t)
  | some u =>
    let _ ← (Grid.zip .null .null (combinePlain op) u (l.grid s) (r.grid t)).data.toList.mapM id
    throw (.notNumbers ElementType.object.name)

/-- Whether data other than a bare number is of objects. -/
def isObjects (d : Datum) : Bool := d.bare?.isNone && d.elementType = .object

/-- Why two pieces of data are not combined of which one is an array and the other holds texts. -/
def refusal (op : Combination) (l r : Datum) : TensorError :=
  .noCommonValue op.name l.elementType.name r.elementType.name

def combine (op : Combination) (l r : Datum) : Except TensorError Datum :=
  if op = .product && isRepetition l r then repeated l r
  else
    match l.array?, r.array? with
    | some a, some b => (a.combine op b).map ofResult
    | some a, none =>
      if r.isObjects then combineObjects op l r
      else do
        let b ← r.besideArray op a (refusal op l r)
        return ofResult (← a.combine op b)
    | none, some b =>
      if l.isObjects then combineObjects op l r
      else do
        let a ← l.besideArray op b (refusal op l r)
        return ofResult (← a.combine op b)
    | none, none => combinePlain op l r

def neg : Datum → Except TensorError Datum
  | .array a => a.value.neg.map ofResult
  | .entry a => a.neg.map ofResult
  | d =>
    match d.bare? with
    | some b => .ok (ofBare b.neg)
    | none => .error (.noOpposite d.typeName)

/-- The types of single objects that have a conjugate. -/
def conjugable : List String := ["bool", "int", "float", "complex"]

/-- A function of the data as an array. Objects are asked for the function one by one; `known` are
the names of the types that have it. -/
def applied (name : String) (known : List String) (f : NumArray → NumArray) (d : Datum) :
    Except TensorError Datum :=
  match d.toArray with
  | .ok a => .ok (ofResult (f a))
  | .error (.notNumbers e) =>
    let names := d.leaves.map typeName
    match d.elementType, names.findIdx? (!known.contains ·) with
    | .text _, _ => .error (.noValueOnTexts name)
    | _, some i => .error (.noValue name i (names.getD i ""))
    | _, none => if d.bare?.isSome then .ok d else .error (.notNumbers e)
  | .error e => .error e

def conj : Datum → Except TensorError Datum := applied "conjugate" conjugable NumArray.conj

/-- The name of an elementary function on arrays. -/
def functionName : Elementary → String
  | .exp => "exp"
  | .ln => "log"
  | .sin => "sin"
  | .cos => "cos"
  | .tan => "tan"
  | .sinh => "sinh"
  | .cosh => "cosh"
  | .tanh => "tanh"

/-- An elementary function of the data. -/
def elementary (f : Elementary) : Datum → Except TensorError Datum :=
  applied (functionName f) [] (NumArray.elementary f)

def sumAll (d : Datum) : Except TensorError Datum := d.toArray.map fun a => ofResult a.sumAll

/-- A gradient in the shape of an operand. -/
def fit (g a : Datum) : Except TensorError Datum := do
  let g ← g.toArray
  let s ← a.shape
  return ofArray (← g.reduceTo (s.map some))

instance : Operations Datum where
  neg := neg
  conj := conj
  twice := combine .product (.real 2.0)
  add := combine .sum
  mul := combine .product
  div := combine .quotient
  elementary := elementary
  sumAll := sumAll
  timesEntry a g := do combine .product a (← g.asScalar)
  fit := fit

end Datum

end DiffGraph
