import DiffGraph.Operator.TensorRules
import DiffGraph.Proofs.Data.Leaf
import DiffGraph.Proofs.Engine.Session
import DiffGraph.Proofs.Graph.Lookup

/-!
# Refused calls

A call that appends one node, binds a name or assigns a variable does all of it or nothing. Its
checks come before the first change, with one exception: a variable with a value is appended
without it and assigned afterwards, and the assignment checks the value once more. That check
cannot fail, because a value that was made from data is accepted as data, and nothing depends on
the new node yet.
-/

namespace DiffGraph

variable {D V E : Type}

/-- To append a node and to assign it then is to append it with its value. -/
theorem Graph.withValue_append_fresh (g : Graph V) (k : Kind) (v : Option V) :
    (g.append (.fresh k none)).withValue g.size v = g.append (.fresh k v) := by
  have hnodes : ((g.append (.fresh k none)).withValue g.size v).nodes =
      (g.append (.fresh k v)).nodes := by
    apply Array.ext_getElem?
    intro m
    rw [withValue, getElem?_nodes_modify, getElem?_nodes_append, getElem?_nodes_append]
    by_cases hm : m = g.size
    · rw [if_pos hm, if_pos hm, if_pos hm]
      rfl
    · rw [if_neg hm, if_neg hm, if_neg hm]
  exact congrArg (fun nodes => { g with nodes := nodes }) hnodes

/-- The graph is as it was if the action failed. -/
def Reply.AllOrNothing {α : Type} (g : Graph V) (r : Reply V E α) : Prop :=
  ∀ e, r.outcome = .error e → r.graph = g

namespace Reply.AllOrNothing

variable {α β : Type} {g : Graph V}

theorem error (e : Fault E) (events : List Event) :
    (⟨.error e, g, events⟩ : Reply V E α).AllOrNothing g :=
  fun _ _ => rfl

theorem ok (a : α) (h : Graph V) (events : List Event) :
    (⟨.ok a, h, events⟩ : Reply V E α).AllOrNothing g :=
  nofun

theorem map {r : Reply V E α} (hr : r.AllOrNothing g) (f : α → β) :
    (⟨r.outcome.map f, r.graph, r.events⟩ : Reply V E β).AllOrNothing g := by
  intro e he
  cases ho : r.outcome with
  | ok a =>
      rw [ho] at he
      cases he
  | error c => exact hr c ho

end Reply.AllOrNothing

open DiffGraph.Graph

namespace Action

variable (g : Graph V)

theorem allOrNothing_constant (convert : D → Except E V) (d : D) :
    ((constant convert d).run g).AllOrNothing g := by
  rw [run_constant]
  cases convert d with
  | ok v => exact .ok _ _ _
  | error e => exact .error _ _

theorem allOrNothing_emptyVariable (s : String) :
    ((emptyVariable s : Action V E Nat).run g).AllOrNothing g := by
  rw [run_emptyVariable]
  split
  · exact .error _ _
  · exact .ok _ _ _

theorem allOrNothing_setName (r : Ref) (s : String) :
    ((setName r s : Action V E (Option Nat)).run g).AllOrNothing g := by
  rw [run_setName]
  cases (g.check r : Except (Fault E) Nat) with
  | ok n => exact .ok _ _ _
  | error e => exact .error _ _

theorem allOrNothing_unary (op : Unary) (arg : Ref) :
    ((unary op arg : Action V E Nat).run g).AllOrNothing g := by
  rw [run_unary]
  cases (g.check arg : Except (Fault E) Nat) with
  | ok a => exact .ok _ _ _
  | error e => exact .error _ _

theorem allOrNothing_binary (op : Binary) (lhs rhs : Ref) :
    ((binary op lhs rhs : Action V E Nat).run g).AllOrNothing g := by
  rw [run_binary]
  cases (g.check lhs : Except (Fault E) Nat) with
  | error e => exact .error _ _
  | ok l =>
      cases (g.check rhs : Except (Fault E) Nat) with
      | ok r => exact .ok _ _ _
      | error e => exact .error _ _

variable {g}

/-- Once the value is written, the dependents are found without a fault. -/
theorem allOrNothing_setValue (hg : g.WellFormed) (convert : D → Except E V) (r : Ref) (d : D) :
    ((setValue convert r d).run g).AllOrNothing g := by
  cases hr : (g.check r : Except (Fault E) Nat) with
  | error e =>
      rw [run_setValue, hr]
      exact .error _ _
  | ok n =>
      obtain ⟨rfl, -⟩ := check_eq_ok_iff.1 hr
      by_cases hk : g.kind? n = some .var
      · cases hd : convert d with
        | ok v =>
            obtain ⟨events, hrun⟩ := hg.run_setValue hk hd
            rw [hrun]
            exact .ok _ _ _
        | error e =>
            simp only [run_setValue, hr, hk, if_true, hd]
            exact .error _ _
      · simp only [run_setValue, hr, hk, if_false]
        exact .error _ _

/-- The second conversion of the value is the identity, and nothing consumes the new node. -/
theorem run_variableOf_of_settled {conversion : Conversion D V E} (hc : conversion.Settled)
    (form : LeafForm) (s : String) (d : D) (g : Graph V) :
    (variableOf conversion (conversion.of form) s d).run g =
      match conversion.of form d with
      | .ok v =>
        if (g.names.get? s).isSome then ⟨.error (.duplicatedName s), g, []⟩
        else ⟨.ok g.size, (g.append (.fresh .var (some v))).bindName s g.size,
          [.added g.size Kind.var.tag]⟩
      | .error e => ⟨.error (.rule e), g, []⟩ := by
  rw [run_variableOf]
  cases hv : conversion.of form d with
  | error e => rfl
  | ok v =>
      simp only
      split
      · rfl
      · have hk : ((g.append (.fresh .var none)).bindName s g.size).kind? g.size = some .var := by
          change (g.append (.fresh .var none)).kind? g.size = some .var
          rw [kind?_append, if_pos rfl]
          rfl
        have hw : ((g.append (.fresh .var none)).bindName s g.size).withValue g.size (some v) =
            (g.append (.fresh .var (some v))).bindName s g.size :=
          congrArg (fun h => bindName h s g.size) (withValue_append_fresh g .var (some v))
        have hlt : g.size < ((g.append (.fresh .var (some v))).bindName s g.size).size := by
          change g.size < (g.append (.fresh .var (some v))).size
          rw [size_append]
          exact Nat.lt_succ_self _
        have hnone :
            ((g.append (.fresh .var (some v))).bindName s g.size).consumersOf g.size = [] := by
          change (g.append (.fresh .var (some v))).consumersOf g.size = []
          rw [consumersOf_append_fresh, consumersOf_eq_nil_of_size_le (Nat.le_refl _)]
        simp only [run_setValue, check_node (lt_size_of_kind? hk), hk, if_true, hc form d v hv, hw,
          run_invalidateNode, check_node hlt, invalidate_of_no_consumers hnone]
        rfl

theorem allOrNothing_variableOf {conversion : Conversion D V E} (hc : conversion.Settled)
    (form : LeafForm) (s : String) (d : D) (g : Graph V) :
    ((variableOf conversion (conversion.of form) s d).run g).AllOrNothing g := by
  rw [run_variableOf_of_settled hc]
  cases conversion.of form d with
  | error e => exact .error _ _
  | ok v =>
      simp only
      split
      · exact .error _ _
      · exact .ok _ _ _

end Action

namespace Call

/-- The calls that append one node, bind a name or assign a variable. A difference appends two
nodes. -/
def isPrimitive : Call D → Bool
  | .constant _ _ | .emptyVariable _ | .variableOf _ _ _ | .unary _ _ | .binary _ _ _
  | .setName _ _ | .setValue _ _ => true
  | _ => false

theorem allOrNothing_perform {g : Graph V} (hg : g.WellFormed) {conversion : Conversion D V E}
    (hc : conversion.Settled) (rules : Rules V E) {call : Call D} (hcall : call.isPrimitive) :
    ((call.perform conversion rules).run g).AllOrNothing g := by
  cases call with
  | constant form d =>
      rw [perform, Action.run_map]
      exact (Action.allOrNothing_constant g _ d).map _
  | emptyVariable s =>
      rw [perform, Action.run_map]
      exact (Action.allOrNothing_emptyVariable g s).map _
  | variableOf form s d =>
      rw [perform, Action.run_map]
      exact (Action.allOrNothing_variableOf hc form s d g).map _
  | unary op a =>
      rw [perform, Action.run_map]
      exact (Action.allOrNothing_unary g op a).map _
  | binary op l r =>
      rw [perform, Action.run_map]
      exact (Action.allOrNothing_binary g op l r).map _
  | setName r s =>
      rw [perform, Action.run_map]
      exact (Action.allOrNothing_setName g r s).map _
  | setValue r d =>
      rw [perform, Action.run_then_pure]
      exact (Action.allOrNothing_setValue hg _ r d).map _
  | sub _ _ | getIndex _ | getValue _ | getDeriv _ | operands _ | consumers _ | evalValue _
  | evalDeriv _ | zeroDerivs => cases hcall

/-- A variable that was made is the last node, has the last name, and holds its value. -/
theorem run_variableOf_eq_ok {g : Graph V} {conversion : Conversion D V E}
    (hc : conversion.Settled) (rules : Rules V E) {form : LeafForm} {s : String} {d : D}
    {answer : Answer V}
    (hok : (((variableOf form s d).perform conversion rules).run g).outcome = .ok answer) :
    answer = .node g.size ∧ g.names.get? s = none ∧ ∃ v, conversion.of form d = .ok v ∧
      (((variableOf form s d).perform conversion rules).run g).graph =
        ⟨g.nodes.push (.fresh .var (some v)), g.names ++ [(s, g.size)], g.edges⟩ := by
  rw [perform, Action.run_map, Action.run_variableOf_of_settled hc] at hok ⊢
  cases hv : conversion.of form d with
  | error e =>
      rw [hv] at hok
      cases hok
  | ok v =>
      simp only [hv] at hok ⊢
      cases hs : g.names.get? s with
      | some n =>
          simp only [hs, Option.isSome_some, if_true] at hok
          cases hok
      | none =>
          simp only [hs, Option.isSome_none, Bool.false_eq_true, if_false] at hok ⊢
          refine ⟨(Except.ok.inj hok).symm, trivial, v, rfl, ?_⟩
          rw [bindName, append, Names.bind_of_get?_eq_none hs]

end Call

/-- A refused call that would append one node, bind a name or assign a variable leaves the graph
as it was. A variable with a value that is not refused is appended, with its name and the tensor
made of its data, and nothing else changes. -/
theorem primitive_call_all_or_nothing (c : Config)
    (rules : Rules (Stored (Tensor Machine)) TensorError) (calls : List (Call Datum))
    (call : Call Datum) (hcall : call.isPrimitive) :
    let g := Graph.empty.after c.storedConversion rules calls
    let reply := (call.perform c.storedConversion rules).run g
    (∀ e, reply.outcome = .error e → reply.graph = g) ∧
      ∀ form s d, call = .variableOf form s d → ∀ answer, reply.outcome = .ok answer →
        answer = .node g.size ∧ g.names.get? s = none ∧
          ∃ source v, form.source d = .ok source ∧ c.storedConversion.any source = .ok v ∧
            reply.graph =
              ⟨g.nodes.push (.fresh .var (some v)), g.names ++ [(s, g.size)], g.edges⟩ := by
  intro g reply
  have hg : g.WellFormed := wellFormed_after c.storedConversion rules calls
  refine ⟨Call.allOrNothing_perform hg c.settled_storedConversion rules hcall, ?_⟩
  rintro form s d rfl answer hok
  obtain ⟨hanswer, hname, v, hv, hgraph⟩ :=
    Call.run_variableOf_eq_ok c.settled_storedConversion rules hok
  obtain ⟨source, hsource, hany⟩ := c.storedConversion_of_eq_ok hv
  exact ⟨hanswer, hname, source, v, hsource, hany, hgraph⟩

/-- The name is taken by a variable without a value. -/
theorem refused_scalar_of_taken_name :
    let c := Config.standard
    let rules := (Tensor.rules Machine).stored
    let g := Graph.empty.after c.storedConversion rules [.emptyVariable "x"]
    let call : Call Datum := .variableOf .scalar "x" (.bool true)
    let reply := (call.perform c.storedConversion rules).run g
    call.isPrimitive ∧ reply.outcome = .error (.duplicatedName "x") ∧ reply.graph = g := by
  intro c rules g call reply
  have hrefused : reply.outcome = .error (.duplicatedName "x") := rfl
  exact ⟨rfl, hrefused, (primitive_call_all_or_nothing c rules _ call rfl).1 _ hrefused⟩

/-- An array without entries has no items to tell its element type: the vector that is made of
them holds real numbers, where the tensor of the array itself would hold complex ones. -/
theorem vector_of_no_complex_numbers :
    let c := Config.standard
    let d : Datum := .ofArray (.floating ⟨.complex64, .constant [0] (Arithmetic.zero .complex64)⟩)
    let call : Call Datum := .variableOf .vector "v" d
    let reply := (call.perform c.storedConversion (Tensor.rules Machine).stored).run Graph.empty
    call.isPrimitive ∧ (∃ answer, reply.outcome = .ok answer) ∧
      ∃ held made, reply.graph.value? 0 = some held ∧ c.storedConversion.any d = .ok made ∧
        held.value.dtype = .float64 ∧ made.value.dtype = .complex128 := by
  intro c d call reply
  have hok : reply.outcome = .ok (.node 0) := by
    simp only [reply, call, Call.perform, Action.run_map,
      Action.run_variableOf_of_settled c.settled_storedConversion]
    rfl
  obtain ⟨-, -, held, hheld, hgraph⟩ :=
    Call.run_variableOf_eq_ok c.settled_storedConversion _ hok
  refine ⟨rfl, ⟨_, hok⟩, held, _, ?_, rfl, ?_, ?_⟩
  · change ((call.perform c.storedConversion _).run Graph.empty).graph.value? 0 = _
    rw [hgraph]
    rfl
  · rw [← Except.ok.inj hheld]
    rfl
  · rfl

end DiffGraph
