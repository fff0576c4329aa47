import DiffGraph.Graph.Action
import DiffGraph.Engine.Evaluation
import DiffGraph.Engine.Invalidation
import DiffGraph.Engine.Backward

/-!
# The actions of clients

Everything a client does with a calculation graph: leaves and operators are appended, variables
are assigned, values and derivatives are computed and read. References are checked before
anything is changed. Client data `D` becomes values `V` by a conversion that may fail.
-/

namespace DiffGraph

/-- How client data becomes a value. -/
structure Conversion (D V E : Type) where
  /-- A value of any rank. -/
  any : D → Except E V
  /-- A value of rank 0. -/
  scalar : D → Except E V
  /-- A value of rank 1. -/
  vector : D → Except E V
  /-- A value that is handed in as data. -/
  data : V → D

namespace Action

variable {D V E : Type}

/-- The index of the node that a reference means. -/
def check (r : Ref) : Action V E Nat := read (·.check r)

/-- The index of the node that a reference by index or by name means. -/
def resolve (r : Ref) : Action V E Nat := read (·.resolve r)

/-- The node that a reference by index or by name means. -/
def node (r : Ref) : Action V E (Node V) :=
  read fun g => do
    let n ← g.resolve r
    (g.nodes[n]?).elim (.error (.foreignIndex r)) .ok

def append (node : Node V) : Action V E Nat := do
  let n := (← graph).size
  update (·.append node)
  report (.added n node.kind.tag)
  return n

/-- Connects a node as the next operand of the node at a place. The place may be counted back from
the last node. -/
def connectPlace (source : Nat) (i : Int) : Action V E Unit := do
  match (← graph).place i with
  | some t => update (·.connect source t i)
  | none =>
    ofExcept (.error (if fitsWord i then .subscriptOutOfRange else .subscriptOutOfWord))
where
  /-- Whether a whole number is in the range of a machine word. -/
  fitsWord (i : Int) : Bool := i.bmod (Nat.pow 2 64) = i

/-- Connects a node as the next operand of another. -/
def connect (source target : Ref) : Action V E Unit := do
  let s ← check source
  match target with
  | .index i => connectPlace s i
  | .array _ (some i) => connectPlace s i
  | .array _ none => ofExcept (.error .arrayAsSubscript)
  | r => ofExcept (.error (.notSubscript r))

/-- Connects an operand to a node of the graph. -/
def connectOperand (source target : Nat) : Action V E Unit :=
  update (·.connect source target target)

def constant (convert : D → Except E V) (d : D) : Action V E Nat := do
  let v ← ofRule (convert d)
  append (.fresh .const (some v))

/-- Appends a variable without a value. A name belongs to one node. -/
def emptyVariable (name : String) : Action V E Nat := do
  if ((← graph).names.get? name).isSome then ofExcept (.error (.duplicatedName name))
  let n ← append (.fresh .var none)
  update (·.bindName name n)
  return n

/-- Drops the values that depend on a node. -/
def invalidateNode (r : Ref) : Action V E Unit := do
  let n ← check r
  let result : Invalidation V E := invalidate (← graph) n
  update fun _ => result.graph
  ofExcept result.outcome
  if !result.dependents.isEmpty then
    report (.invalidated r result.dependents.length)

/-- Assigns a value to a variable and drops the values that depend on it. -/
def setValue (convert : D → Except E V) (r : Ref) (d : D) : Action V E Unit := do
  let n ← check r
  let kind := (← graph).kind? n
  if kind = some .var then
    let v ← ofRule (convert d)
    update (·.withValue n (some v))
    invalidateNode r
  else
    ofExcept (.error (.notVariable r))

/-- Appends a variable that holds a value. The data is converted before the graph is touched, and
the value then assigned like any other. -/
def variableOf (conversion : Conversion D V E) (convert : D → Except E V) (name : String) (d : D) :
    Action V E Nat := do
  let v ← ofRule (convert d)
  let n ← emptyVariable name
  setValue conversion.any (.node n) (conversion.data v)
  return n

/-- Binds a name to a node, and answers the node that had the name. -/
def setName (r : Ref) (name : String) : Action V E (Option Nat) := do
  let n ← check r
  let before := (← graph).names.get? name
  update (·.bindName name n)
  return before

/-- The node that a name is bound to. -/
def getIndex (name : String) : Action V E Nat := read (·.lookup name)

/-- Appends an operator of one operand. -/
def unary (op : Unary) (arg : Ref) : Action V E Nat := do
  let a ← check arg
  let n ← append (.fresh (.unary op) none)
  connectOperand a n
  return n

/-- Appends an operator of two operands. -/
def binary (op : Binary) (lhs rhs : Ref) : Action V E Nat := do
  let l ← check lhs
  let r ← check rhs
  let n ← append (.fresh (.binary op) none)
  connectOperand l n
  connectOperand r n
  return n

/-- Appends a difference: the sum of the left operand and the opposite of the right one. The
opposite is appended before the left operand is looked at. -/
def sub (lhs rhs : Ref) : Action V E Nat := do
  let m ← unary .neg rhs
  binary .add lhs (.node m)

/-- The value that a node holds. -/
def getValue (r : Ref) : Action V E V :=
  read fun g => do
    let n ← g.check r
    (g.value? n).elim (.error (.valueUninitialized r)) .ok

/-- The gradient that a node holds. -/
def getDeriv (r : Ref) : Action V E V :=
  read fun g => do
    let n ← g.check r
    (g.deriv? n).elim (.error (.derivUninitialized r)) .ok

/-- The operands of a node, left one first. -/
def operands (r : Ref) : Action V E (List Nat) :=
  read fun g => do
    let n ← g.check r
    g.operands n

/-- The ends of the edges that start at a node. -/
def consumers (r : Ref) : Action V E (List Int) :=
  read fun g => do
    let n ← g.check r
    return g.consumersOf n

/-- Reports the nodes that were computed. -/
def reportComputed (g : Graph V) : List Nat → Action V E Unit
  | [] => return ()
  | n :: ns => do
    report (.computed n (g.tag n))
    reportComputed g ns

/-- The value of a node, computed if necessary. A name is accepted only for a node that holds its
value. -/
def evalValue (rules : Rules V E) (r : Ref) : Action V E V := do
  let n ← resolve r
  let g ← graph
  match g.value? n, r with
  | some v, _ =>
    report (.hit r (g.tag n))
    return v
  | none, .name _ => ofExcept (.error (.notSubscript r))
  | none, _ =>
    let result := evaluate rules g n
    update fun _ => result.graph
    reportComputed result.graph result.computed
    ofExcept result.outcome
    ofExcept ((result.graph.value? n).elim (.error (.valueUninitialized r)) .ok)

/-- Clears the gradients of all nodes. -/
def zeroDerivs : Action V E Unit := update (·.withoutDerivs)

/-- Computes the gradients of a node that holds its value, with respect to all the nodes it
depends on. Given a name, the gradients are cleared and nothing is computed. -/
def evalDeriv (rules : Rules V E) (r : Ref) : Action V E Unit := do
  let n ← resolve r
  let g ← graph
  match g.value? n with
  | none => ofExcept (.error (.valueUninitialized r))
  | some v =>
    match r with
    | .name _ =>
      zeroDerivs
      ofExcept (.error (.notSubscript r))
    | _ =>
      let result := sweep rules g n v
      update fun _ => result.graph
      ofExcept result.outcome
      report (.backward r result.visited.length)

/-- Takes the value of a node away and leaves all else as it is. -/
def dropValue (r : Ref) : Action V E Unit := do
  let n ← resolve r
  update (·.withValue n none)

/-- Does something to a node, then to the node that came of it, and so on. -/
def iterate (f : Ref → Action V E Nat) : Nat → Ref → Action V E Ref
  | 0, r => return r
  | k + 1, r => do
    let n ← f r
    iterate f k (.node n)

end Action

end DiffGraph
