import DiffGraph.Graph.Basic

/-!
# Actions on a graph

An action takes a graph to an outcome, the graph afterwards, and the events on the way. A failed
action keeps what it has done to the graph up to the failure.
-/

namespace DiffGraph

/-- What happens on a graph, for those who watch it. -/
inductive Event where
  /-- A node was appended. -/
  | added (node : Nat) (tag : String)
  /-- A value was asked for that is held already. -/
  | hit (node : Ref) (tag : String)
  /-- The value of an operator was computed. -/
  | computed (node : Nat) (tag : String)
  /-- A reverse pass was completed. -/
  | backward (node : Ref) (visits : Nat)
  /-- The values that depend on a node were dropped. -/
  | invalidated (node : Ref) (dependents : Nat)
deriving Repr, DecidableEq

namespace Event

/-- The part of the program that an event comes from. -/
def channel : Event → String
  | .added _ _ => "graph"
  | _ => "engine"

def text : Event → String
  | .added n tag => "add node " ++ toString n ++ ": " ++ tag
  | .hit r tag => "cache hit " ++ r.text ++ " (" ++ tag ++ ")"
  | .computed n tag => "computed " ++ toString n ++ " (" ++ tag ++ ")"
  | .backward r visits => "backward pass from " ++ r.text ++ ": " ++ toString visits ++
      " node visits"
  | .invalidated r n => "set_value " ++ r.text ++ ": invalidated " ++ toString n ++ " dependents"

end Event

/-- What an action on a graph of values `V` leads to. -/
structure Reply (V E α : Type) where
  outcome : Except (Fault E) α
  graph : Graph V
  events : List Event

def Action (V E α : Type) : Type := Graph V → Reply V E α

namespace Action

variable {V E α β : Type}

/-- Runs an action on a graph. -/
def run (x : Action V E α) (g : Graph V) : Reply V E α := x g

/-- Leaves the graph as it is. -/
protected def pure (a : α) : Action V E α := fun g => ⟨.ok a, g, []⟩

/-- Runs the second action on the graph that the first one leaves, unless that one fails. -/
protected def bind (x : Action V E α) (f : α → Action V E β) : Action V E β := fun g =>
  match x g with
  | ⟨.ok a, g, before⟩ =>
    match f a g with
    | ⟨outcome, g, after⟩ => ⟨outcome, g, before ++ after⟩
  | ⟨.error e, g, before⟩ => ⟨.error e, g, before⟩

instance : Monad (Action V E) where
  pure := Action.pure
  bind := Action.bind

def graph : Action V E (Graph V) := fun g => ⟨.ok g, g, []⟩

def update (f : Graph V → Graph V) : Action V E Unit := fun g => ⟨.ok (), f g, []⟩

def report (e : Event) : Action V E Unit := fun g => ⟨.ok (), g, [e]⟩

/-- Fails, or has the given result. -/
def ofExcept (x : Except (Fault E) α) : Action V E α := fun g => ⟨x, g, []⟩

/-- Reads something off the graph, which may fail. -/
def read (f : Graph V → Except (Fault E) α) : Action V E α := fun g => ⟨f g, g, []⟩

/-- A result of a rule, with its failure as a failure of the action. -/
def ofRule (x : Except E α) : Action V E α := ofExcept (x.mapError .rule)

@[simp] theorem run_pure (a : α) (g : Graph V) :
    (pure a : Action V E α).run g = ⟨.ok a, g, []⟩ := rfl

theorem run_bind (x : Action V E α) (f : α → Action V E β) (g : Graph V) :
    (x >>= f).run g =
      match x.run g with
      | ⟨.ok a, g, before⟩ =>
        ⟨((f a).run g).outcome, ((f a).run g).graph, before ++ ((f a).run g).events⟩
      | ⟨.error e, g, before⟩ => ⟨.error e, g, before⟩ := by
  rfl

@[simp] theorem run_graph (g : Graph V) : (graph : Action V E (Graph V)).run g = ⟨.ok g, g, []⟩ :=
  rfl

@[simp] theorem run_update (f : Graph V → Graph V) (g : Graph V) :
    (update f : Action V E Unit).run g = ⟨.ok (), f g, []⟩ := rfl

@[simp] theorem run_report (e : Event) (g : Graph V) :
    (report e : Action V E Unit).run g = ⟨.ok (), g, [e]⟩ := rfl

@[simp] theorem run_ofExcept (x : Except (Fault E) α) (g : Graph V) :
    (ofExcept x : Action V E α).run g = ⟨x, g, []⟩ := rfl

@[simp] theorem run_read (f : Graph V → Except (Fault E) α) (g : Graph V) :
    (read f : Action V E α).run g = ⟨f g, g, []⟩ := rfl

end Action

end DiffGraph
