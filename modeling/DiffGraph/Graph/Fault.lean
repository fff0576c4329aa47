import DiffGraph.Graph.Ref
import DiffGraph.Operator.Basic

/-!
# Causes of failure on a graph

One cause per kind of failure, with the node or name that it concerns. A failure of a value or
derivative rule, or of the conversion of client data, is a `rule` failure of its own type.
-/

namespace DiffGraph

/-- Why an action on a graph fails; `E` holds the failures of the rules. -/
inductive Fault (E : Type) where
  /-- A value was asked of a node that has none. -/
  | valueUninitialized (node : Ref)
  /-- A derivative was asked of a node that the last pass did not reach. -/
  | derivUninitialized (node : Ref)
  /-- A value was assigned to a node that is no variable. -/
  | notVariable (node : Ref)
  /-- A name was given to a second variable. -/
  | duplicatedName (name : String)
  /-- A name is bound to no node. -/
  | undefinedName (name : String)
  /-- A reference is no index of a node of the graph. -/
  | foreignIndex (node : Ref)
  /-- A node of an operator of one operand has another number of them. -/
  | unaryArity (node count : Nat)
  /-- A node of an operator of two operands has another number of them. -/
  | binaryArity (node count : Nat)
  /-- A constant holds no value. -/
  | constantWithoutValue (node : Nat)
  /-- A name was found in the place of an index. -/
  | notSubscript (node : Ref)
  /-- An edge ends at no node. -/
  | subscriptOutOfRange
  /-- The end of an edge is not in the range of a machine word. -/
  | subscriptOutOfWord
  /-- An array without a single whole number was found in the place of an index. -/
  | arrayAsSubscript
  /-- The operands of a node lead back to it. -/
  | cyclic
  /-- An operator was named that there is not. -/
  | unknownOperator (cause : UnknownOperator)
  /-- A rule failed. -/
  | rule (cause : E)
deriving Repr, DecidableEq

/-- The text of a failed look-up of an operator. -/
def UnknownOperator.message : UnknownOperator → String
  | .unary name => Text.quoted name ++ " is not a valid Unary"
  | .binary name => Text.quoted name ++ " is not a valid Binary"

/-- The text of a failure, given the texts of the failures of rules. -/
def Fault.message {E : Type} (ruleMessage : E → String) : Fault E → String
  | .valueUninitialized r => "Value node is not initialized (Index = " ++ r.text ++ ")"
  | .derivUninitialized r => "Derivative is not initialized (Index = " ++ r.text ++ ")"
  | .notVariable r => "Node type mismatch (Index = " ++ r.text ++ ")"
  | .duplicatedName s => "Duplicated name (name = " ++ s ++ ")"
  | .undefinedName s => "Variable name is not defined (name = " ++ s ++ ")"
  | .foreignIndex r => "node index " ++ r.literal ++ " is not in the graph"
  | .unaryArity n k => "unary node " ++ toString n ++ " has " ++ toString k ++ " operands"
  | .binaryArity n k => "binary node " ++ toString n ++ " has " ++ toString k ++ " operands"
  | .constantWithoutValue n => "constant node " ++ toString n ++ " has no value"
  | .notSubscript r => "list indices must be integers or slices, not " ++ r.typeName
  | .subscriptOutOfRange => "list index out of range"
  | .subscriptOutOfWord => "cannot fit 'int' into an index-sized integer"
  | .arrayAsSubscript => "only integer scalar arrays can be converted to a scalar index"
  | .cyclic => "the operands of a node lead back to it"
  | .unknownOperator e => e.message
  | .rule e => ruleMessage e

end DiffGraph
