import DiffGraph.Graph.Actions

/-!
# Calls

What a client can ask of a calculation graph, as data, and the action that each call stands for.
The calls only append nodes and assign variables, so no call makes a node its own ancestor. A
failed call does not end a session: the next one finds the graph that the failed one left.
-/

namespace DiffGraph

/-- Which data a leaf accepts. -/
inductive LeafForm where
  /-- A value of any rank. -/
  | any
  /-- A value of rank 0. -/
  | scalar
  /-- A value of rank 1. -/
  | vector
deriving Repr, DecidableEq

/-- A call of a client that hands in data `D`. -/
inductive Call (D : Type) where
  | constant (form : LeafForm) (data : D)
  | emptyVariable (name : String)
  | variableOf (form : LeafForm) (name : String) (data : D)
  | unary (op : Unary) (arg : Ref)
  | binary (op : Binary) (lhs rhs : Ref)
  | sub (lhs rhs : Ref)
  | setName (node : Ref) (name : String)
  | getIndex (name : String)
  | setValue (node : Ref) (data : D)
  | getValue (node : Ref)
  | getDeriv (node : Ref)
  | operands (node : Ref)
  | consumers (node : Ref)
  | evalValue (node : Ref)
  | evalDeriv (node : Ref)
  | zeroDerivs

/-- What a call answers where it does not fail. -/
inductive Answer (V : Type) where
  /-- Nothing but that it is done. -/
  | done
  /-- The node that was appended or looked up. -/
  | node (n : Nat)
  /-- The node that had the name before, if there was one. -/
  | previous (n : Option Nat)
  | value (v : V)
  | operands (ns : List Nat)
  | consumers (ends : List Int)

variable {D V E : Type}

/-- The conversion of the data of a leaf. -/
def Conversion.of (conversion : Conversion D V E) : LeafForm → D → Except E V
  | .any => conversion.any
  | .scalar => conversion.scalar
  | .vector => conversion.vector

namespace Call

/-- The action that a call stands for. -/
def perform (conversion : Conversion D V E) (rules : Rules V E) :
    Call D → Action V E (Answer V)
  | .constant form d => .node <$> Action.constant (conversion.of form) d
  | .emptyVariable s => .node <$> Action.emptyVariable s
  | .variableOf form s d => .node <$> Action.variableOf conversion (conversion.of form) s d
  | .unary op a => .node <$> Action.unary op a
  | .binary op l r => .node <$> Action.binary op l r
  | .sub l r => .node <$> Action.sub l r
  | .setName r s => .previous <$> Action.setName r s
  | .getIndex s => .node <$> Action.getIndex s
  | .setValue r d => do
    Action.setValue conversion.any r d
    return .done
  | .getValue r => .value <$> Action.getValue r
  | .getDeriv r => .value <$> Action.getDeriv r
  | .operands r => .operands <$> Action.operands r
  | .consumers r => .consumers <$> Action.consumers r
  | .evalValue r => .value <$> Action.evalValue rules r
  | .evalDeriv r => do
    Action.evalDeriv rules r
    return .done
  | .zeroDerivs => do
    Action.zeroDerivs
    return .done

end Call

/-- The graph after a session that starts with the given graph. -/
def Graph.after (conversion : Conversion D V E) (rules : Rules V E) (g : Graph V)
    (calls : List (Call D)) : Graph V :=
  calls.foldl (fun g call => ((call.perform conversion rules).run g).graph) g

@[simp] theorem Graph.after_nil (conversion : Conversion D V E) (rules : Rules V E)
    (g : Graph V) : g.after conversion rules [] = g := rfl

theorem Graph.after_cons (conversion : Conversion D V E) (rules : Rules V E) (g : Graph V)
    (call : Call D) (calls : List (Call D)) :
    g.after conversion rules (call :: calls) =
      ((call.perform conversion rules).run g).graph.after conversion rules calls := rfl

theorem Graph.after_append (conversion : Conversion D V E) (rules : Rules V E) (g : Graph V)
    (before since : List (Call D)) :
    g.after conversion rules (before ++ since) =
      (g.after conversion rules before).after conversion rules since :=
  List.foldl_append

end DiffGraph
