import DiffGraph.Graph.Fault
import DiffGraph.Graph.Names

/-!
# Calculation graphs

A calculation graph is an arena of nodes: nodes are only ever appended and are referred to by
their index. A node keeps its operands, the nodes that consume it, and as far as they are known
its value and its derivative. The graph keeps all edges in the order in which they were
connected, and the namespace. The graph is generic in the values it holds.
-/

namespace DiffGraph

/-- The kinds of nodes. -/
inductive Kind where
  | const
  | var
  | unary (op : Unary)
  | binary (op : Binary)
deriving Repr, DecidableEq

namespace Kind

/-- Whether the kind is an operator. -/
def isOperator : Kind → Bool
  | .unary _ | .binary _ => true
  | _ => false

/-- The short label of a node: the operator's name, or the name of the kind of leaf. -/
def tag : Kind → String
  | .const => "constant"
  | .var => "variable"
  | .unary op => op.name
  | .binary op => op.name

end Kind

/-- A node of a calculation graph. -/
structure Node (V : Type) where
  kind : Kind
  /-- The value that was assigned, or computed last. -/
  value : Option V
  /-- The gradient from the last pass that reached the node. -/
  deriv : Option V
  /-- The operands in the order of their connection, the left one first. -/
  inputs : List Nat
  /-- The ends of the edges that start here, in the order of their connection. An end that was
  connected by hand may be counted back from the last node, and is then negative. -/
  consumers : List Int
deriving Repr, DecidableEq

def Node.fresh {V : Type} (kind : Kind) (value : Option V) : Node V := ⟨kind, value, none, [], []⟩

/-- A calculation graph over values `V`. -/
structure Graph (V : Type) where
  nodes : Array (Node V)
  names : Names
  edges : Array (Nat × Int)
deriving Repr, DecidableEq

/-- What a node applies to get its value. -/
inductive Application where
  | leaf
  | unary (op : Unary) (arg : Nat)
  | binary (op : Binary) (lhs rhs : Nat)
deriving Repr, DecidableEq

def Application.operands : Application → List Nat
  | .leaf => []
  | .unary _ a => [a]
  | .binary _ l r => [l, r]

namespace Graph

variable {V E : Type}

def empty : Graph V := ⟨#[], [], #[]⟩

def size (g : Graph V) : Nat := g.nodes.size

/-- The value that a node holds. -/
def value? (g : Graph V) (n : Nat) : Option V := g.nodes[n]? >>= Node.value

/-- The gradient that a node holds. -/
def deriv? (g : Graph V) (n : Nat) : Option V := g.nodes[n]? >>= Node.deriv

def kind? (g : Graph V) (n : Nat) : Option Kind := (g.nodes[n]?).map Node.kind

/-- The short label of a node. -/
def tag (g : Graph V) (n : Nat) : String := ((g.kind? n).map Kind.tag).getD ""

/-- The ends of the edges that start at a node, in the order of their connection. -/
def consumersOf (g : Graph V) (n : Nat) : List Int := ((g.nodes[n]?).map Node.consumers).getD []

def modify (g : Graph V) (n : Nat) (f : Node V → Node V) : Graph V :=
  { g with nodes := g.nodes.modify n f }

/-- The graph with another value at a node. -/
def withValue (g : Graph V) (n : Nat) (v : Option V) : Graph V :=
  g.modify n fun node => { node with value := v }

/-- The graph with another gradient at a node. -/
def withDeriv (g : Graph V) (n : Nat) (d : Option V) : Graph V :=
  g.modify n fun node => { node with deriv := d }

def withoutDerivs (g : Graph V) : Graph V :=
  { g with nodes := g.nodes.map fun node => { node with deriv := none } }

/-- The index of the node that a reference means, if it is one of the graph. -/
def check (g : Graph V) (r : Ref) : Except (Fault E) Nat :=
  match r with
  | .index i => if 0 ≤ i ∧ i < g.size then .ok i.toNat else .error (.foreignIndex r)
  | _ => .error (.foreignIndex r)

/-- The node that a name is bound to. -/
def lookup (g : Graph V) (s : String) : Except (Fault E) Nat :=
  (g.names.get? s).elim (.error (.undefinedName s)) .ok

/-- The index of the node that a reference by index or by name means. -/
def resolve (g : Graph V) (r : Ref) : Except (Fault E) Nat :=
  match r with
  | .name s => g.lookup s
  | r => g.check r

/-- The node that the end of an edge means: an index, or one counted back from the last node. -/
def place (g : Graph V) (i : Int) : Option Nat :=
  if 0 ≤ i then (if i < g.size then some i.toNat else none)
  else if 0 ≤ i + g.size then some (i + g.size).toNat
  else none

/-- What a node applies. An operator must have as many operands as it takes. -/
def application (g : Graph V) (n : Nat) : Except (Fault E) Application :=
  match g.nodes[n]? with
  | none => .error (.foreignIndex (.node n))
  | some node =>
    match node.kind, node.inputs with
    | .unary op, [a] => .ok (.unary op a)
    | .unary _, inputs => .error (.unaryArity n inputs.length)
    | .binary op, [l, r] => .ok (.binary op l r)
    | .binary _, inputs => .error (.binaryArity n inputs.length)
    | _, _ => .ok .leaf

/-- The operands of a node, left one first. -/
def operands (g : Graph V) (n : Nat) : Except (Fault E) (List Nat) :=
  (g.application n).map Application.operands

/-- Appends a node; its index is the former size. -/
def append (g : Graph V) (node : Node V) : Graph V :=
  { g with nodes := g.nodes.push node }

/-- Connects a node as the next operand of the node at a place, under the name that the place was
given by. -/
def connect (g : Graph V) (source : Nat) (target : Nat) (written : Int) : Graph V :=
  let g := g.modify target fun node => { node with inputs := node.inputs ++ [source] }
  let g := g.modify source fun node => { node with consumers := node.consumers ++ [written] }
  { g with edges := g.edges.push (source, written) }

/-- Binds a name to a node. -/
def bindName (g : Graph V) (s : String) (n : Nat) : Graph V :=
  { g with names := g.names.bind s n }

end Graph

end DiffGraph
