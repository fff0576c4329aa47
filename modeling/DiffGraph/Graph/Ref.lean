import DiffGraph.Text.Quoted

/-!
# References to nodes

What a client may hand in where a node is meant: an index, a name, or anything else, which is
never a node and is kept only as the text that shows it. An array is no index of a node either, but
one with a single whole number can stand in the place of a subscript.
-/

namespace DiffGraph

/-- A client's reference to a node. -/
inductive Ref where
  | index (i : Int)
  | name (s : String)
  | array (literal : String) (subscript : Option Int)
  | other (literal typeName : String)
deriving Repr, DecidableEq

namespace Ref

/-- The reference to a node of the graph. -/
def node (n : Nat) : Ref := .index n

/-- The text that shows the reference; a name stands in quotes. -/
def literal : Ref → String
  | .index i => toString i
  | .name s => Text.quoted s
  | .array literal _ => literal
  | .other literal _ => literal

/-- The text of the reference; a name stands as it is. -/
def text : Ref → String
  | .index i => toString i
  | .name s => s
  | .array literal _ => literal
  | .other literal _ => literal

/-- The name of the kind of reference. -/
def typeName : Ref → String
  | .index _ => "int"
  | .name _ => "str"
  | .array _ _ => "ndarray"
  | .other _ typeName => typeName

end Ref

end DiffGraph
