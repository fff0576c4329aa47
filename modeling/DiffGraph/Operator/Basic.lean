/-!
# Operators

The closed list of operators that a calculation graph can apply, with their names.
-/

namespace DiffGraph

/-- The operators of one operand. -/
inductive Unary where
  | neg
  | square
  | exp
  | ln
  | sin
  | cos
  | tan
  | sinh
  | cosh
  | tanh
deriving Repr, DecidableEq

/-- The operators of two operands. -/
inductive Binary where
  | add
  | mul
  | div
  | dot
deriving Repr, DecidableEq

/-- A name that belongs to no operator of the family it was looked up in. -/
inductive UnknownOperator where
  | unary (name : String)
  | binary (name : String)
deriving Repr, DecidableEq

namespace Unary

def all : List Unary := [.neg, .square, .exp, .ln, .sin, .cos, .tan, .sinh, .cosh, .tanh]

def name : Unary → String
  | .neg => "neg"
  | .square => "square"
  | .exp => "exp"
  | .ln => "ln"
  | .sin => "sin"
  | .cos => "cos"
  | .tan => "tan"
  | .sinh => "sinh"
  | .cosh => "cosh"
  | .tanh => "tanh"

def ofName? (s : String) : Option Unary := all.find? (·.name == s)

/-- The operator of a name, or the reason why there is none. -/
def ofName (s : String) : Except UnknownOperator Unary :=
  (ofName? s).elim (.error (.unary s)) .ok

end Unary

namespace Binary

def all : List Binary := [.add, .mul, .div, .dot]

def name : Binary → String
  | .add => "add"
  | .mul => "mul"
  | .div => "div"
  | .dot => "dot"

def ofName? (s : String) : Option Binary := all.find? (·.name == s)

/-- The operator of a name, or the reason why there is none. -/
def ofName (s : String) : Except UnknownOperator Binary :=
  (ofName? s).elim (.error (.binary s)) .ok

end Binary

end DiffGraph
