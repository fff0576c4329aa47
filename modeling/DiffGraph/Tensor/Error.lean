import DiffGraph.Tensor.Shape

/-!
# Causes of failure on tensors and on the data they are made from

One cause per kind of failure, with what its text names; the texts are in `message`.
-/

namespace DiffGraph

/-- Why a tensor operation, or the conversion of data into a tensor, fails. -/
inductive TensorError where
  /-- The shapes of two operands do not broadcast. -/
  | notBroadcastable (left right : Shape)
  /-- A tensor cannot be spread over a shape. -/
  | notSpreadable (source target : Shape)
  /-- An array among other data does not fit into the room that the other data leaves for it. -/
  | notAssignable (source room : Shape)
  /-- The number of entries is not the size of a shape. -/
  | notReshapable (size : Nat) (target : Shape)
  /-- No value of the open extent gives the number of entries. -/
  | notCompletable (size : Nat) (target : OpenShape)
  /-- Several extents are left open. -/
  | severalOpen
  /-- A tensor cannot be spread over a shape with an open extent. -/
  | openTarget
  /-- A tensor has another rank than asked for. -/
  | rankMismatch (actual desired : Nat)
  /-- The data is no number, list, tuple or array; its type is named. -/
  | notNumeric (typeName : String)
  /-- The entries are not numbers; their element type is named. -/
  | notNumbers (elementType : String)
  /-- The nested lists agree on some leading extents only. -/
  | ragged (agreed : Shape)
  /-- The nested lists have more levels than a tensor can have axes. -/
  | tooDeep
  /-- The data cannot be run through; its type is named. -/
  | notIterable (typeName : String)
  /-- An array of rank 0 cannot be run through. -/
  | rankZeroIteration
  /-- The data has no opposite; its type is named. -/
  | noOpposite (typeName : String)
  /-- Truth values have no opposite. -/
  | oppositeOfTruth
  /-- The data is not combined by an operation; the types of both sides are named. -/
  | notCombinable (symbol left right : String)
  /-- A sequence is joined to sequences of its own type only. -/
  | notJoinable (left right : String)
  /-- A sequence is repeated a whole number of times only; another type is named. -/
  | notRepeatable (typeName : String)
  /-- A number of repetitions is not in the range of an index. -/
  | outOfIndex
  /-- A repetition is too long. -/
  | outOfMemory
  /-- An entry of the data has no value of a function; its place and its type are named. -/
  | noValue (function : String) (place : Nat) (typeName : String)
  /-- A function has no values on texts. -/
  | noValueOnTexts (function : String)
  /-- A function has no values on two element types. -/
  | noCommonValue (function left right : String)
  /-- A whole number is divided by zero. -/
  | wholeDivisionByZero
  /-- A real number is divided by zero. -/
  | realDivisionByZero
  /-- A complex number is divided by zero. -/
  | complexDivisionByZero
  /-- A whole number is too large for a real one. -/
  | tooLargeForReal
  /-- A quotient of whole numbers is too large for a real number. -/
  | quotientTooLarge
  /-- A whole number is not in the range of an element type. -/
  | outOfRange (i : Int) (elementType : String)
  /-- A whole number is not in the range of a machine word. -/
  | outOfWord
  /-- The data is not compared with whole numbers; its type is named. -/
  | notComparable (typeName : String)
  /-- The data is not whole; its type is named. -/
  | notWhole (typeName : String)
deriving Repr, DecidableEq

def maxRank : Nat := 64

def TensorError.message : TensorError → String
  | .notBroadcastable l r =>
    "operands could not be broadcast together with shapes " ++ l.compact ++ " " ++ r.compact ++ " "
  | .notSpreadable s t =>
    "operands could not be broadcast together with remapped shapes [original->remapped]: " ++
      s.compact ++ "  and requested shape " ++ t.compact
  | .notAssignable s t =>
    "could not broadcast input array from shape " ++ s.compact ++ " into shape " ++ t.compact
  | .notReshapable n t =>
    "cannot reshape array of size " ++ toString n ++ " into shape " ++ t.compact
  | .notCompletable n t =>
    "cannot reshape array of size " ++ toString n ++ " into shape " ++ t.compact
  | .severalOpen => "can only specify one unknown dimension"
  | .openTarget => "all elements of broadcast shape must be non-negative"
  | .rankMismatch actual desired =>
    "Tensor rank is mismatched: actual=" ++ toString actual ++ ", desired=" ++ toString desired
  | .notNumeric typeName =>
    "Tensor values must be numeric (number, list, tuple, ndarray), but got <class '" ++
      typeName ++ "'>"
  | .notNumbers elementType => "Tensor values must be numeric, but got dtype " ++ elementType
  | .ragged agreed =>
    "setting an array element with a sequence. The requested array has an inhomogeneous shape " ++
      "after " ++ toString agreed.length ++ " dimensions. The detected shape was " ++
      agreed.spaced ++ " + inhomogeneous part."
  | .tooDeep =>
    "setting an array element with a sequence. The requested array would exceed the maximum " ++
      "number of dimension of " ++ toString maxRank ++ "."
  | .notIterable typeName => "'" ++ typeName ++ "' object is not iterable"
  | .rankZeroIteration => "iteration over a 0-d array"
  | .noOpposite typeName => "bad operand type for unary -: '" ++ typeName ++ "'"
  | .oppositeOfTruth =>
    "The numpy boolean negative, the `-` operator, is not supported, use the `~` operator or " ++
      "the logical_not function instead."
  | .notCombinable symbol l r =>
    "unsupported operand type(s) for " ++ symbol ++ ": '" ++ l ++ "' and '" ++ r ++ "'"
  | .notJoinable l r => "can only concatenate " ++ l ++ " (not \"" ++ r ++ "\") to " ++ l
  | .notRepeatable typeName => "can't multiply sequence by non-int of type '" ++ typeName ++ "'"
  | .outOfIndex => "cannot fit 'int' into an index-sized integer"
  | .outOfMemory => ""
  | .noValue function place typeName =>
    "loop of ufunc does not support argument " ++ toString place ++ " of type " ++ typeName ++
      " which has no callable " ++ function ++ " method"
  | .noValueOnTexts function =>
    "ufunc '" ++ function ++ "' not supported for the input types, and the inputs could not be " ++
      "safely coerced to any supported types according to the casting rule ''safe''"
  | .noCommonValue function l r =>
    "ufunc '" ++ function ++ "' did not contain a loop with signature matching types (dtype('" ++
      l ++ "'), dtype('" ++ r ++ "')) -> None"
  | .wholeDivisionByZero => "division by zero"
  | .realDivisionByZero => "float division by zero"
  | .complexDivisionByZero => "complex division by zero"
  | .tooLargeForReal => "int too large to convert to float"
  | .quotientTooLarge => "integer division result too large for a float"
  | .outOfRange i elementType =>
    "Python integer " ++ toString i ++ " out of bounds for " ++ elementType
  | .outOfWord => "Python int too large to convert to C long"
  | .notComparable typeName =>
    "'<' not supported between instances of '" ++ typeName ++ "' and 'int'"
  | .notWhole typeName => "'" ++ typeName ++ "' object cannot be interpreted as an integer"

end DiffGraph
