import DiffGraph.Graph.Actions

/-!
# Expressions

An expression is built into a graph from left to right: the operands of an operator are built
before the operator is appended. What was built can be kept under a name and used several times. A
name means what it was last given to, an input before that, and else the node that the graph binds
to it.
-/

namespace DiffGraph

/-- What the names in an expression stand for, the last one first. -/
abbrev Handles := List (String × Ref)

/-- An expression over client data `D`. -/
inductive Expression (D : Type) where
  /-- An input, a kept node or a bound name. -/
  | name (s : String)
  /-- A constant. -/
  | const (d : D)
  /-- A further variable. -/
  | var (name : String) (d : D)
  /-- A further variable without a value. -/
  | emptyVar (name : String)
  /-- A reference as it is. -/
  | ref (r : Ref)
  /-- Binds a name to an expression for use in another. -/
  | letIn (name : String) (bound body : Expression D)
  /-- Keeps an expression under a name for use in another. The graph does not know the name. -/
  | share (name : String) (bound body : Expression D)
  | unary (op : Unary) (arg : Expression D)
  | binary (op : Binary) (lhs rhs : Expression D)
  | sub (lhs rhs : Expression D)

namespace Expression

variable {D V E : Type}

/-- Builds an expression into the graph. -/
def build (conversion : Conversion D V E) (handles : Handles) : Expression D → Action V E Ref
  | .name s =>
    match handles.lookup s with
    | some r => return r
    | none => return .node (← Action.getIndex s)
  | .const d => return .node (← Action.constant conversion.any d)
  | .var s d => return .node (← Action.variableOf conversion conversion.any s d)
  | .emptyVar s => return .node (← Action.emptyVariable s)
  | .ref r => return r
  | .letIn s bound body => do
    let r ← build conversion handles bound
    let _ ← Action.setName r s
    build conversion handles body
  | .share s bound body => do
    let r ← build conversion handles bound
    build conversion ((s, r) :: handles) body
  | .unary op arg => do
    let a ← build conversion handles arg
    return .node (← Action.unary op a)
  | .binary op lhs rhs => do
    let l ← build conversion handles lhs
    let r ← build conversion handles rhs
    return .node (← Action.binary op l r)
  | .sub lhs rhs => do
    let l ← build conversion handles lhs
    let r ← build conversion handles rhs
    return .node (← Action.sub l r)

end Expression

end DiffGraph
