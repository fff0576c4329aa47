import DiffGraph.Graph.Call
import DiffGraph.Proofs.Graph.WellFormed
import DiffGraph.Proofs.Outcomes

/-!
# What the actions of clients lead to

For each action the reply on a graph, with its outcome, the graph afterwards and the events, as
one case distinction over the checks that the action makes. Nothing further on runs an action
step by step.
-/

namespace DiffGraph

namespace Action

open DiffGraph.Graph

variable {D V E : Type} (g : Graph V)

theorem run_map {α β : Type} (f : α → β) (x : Action V E α) :
    (f <$> x).run g = ⟨(x.run g).outcome.map f, (x.run g).graph, (x.run g).events⟩ := by
  change (x >>= fun a => pure (f a)).run g = _
  rw [run_bind]
  obtain ⟨_ | _, h, events⟩ := x.run g <;> simp [Except.map]

theorem run_then_pure {α β : Type} (b : β) (x : Action V E α) :
    (do let _ ← x; return b : Action V E β).run g =
      ⟨(x.run g).outcome.map fun _ => b, (x.run g).graph, (x.run g).events⟩ :=
  run_map g (fun _ => b) x

theorem graph_map {α β : Type} (f : α → β) (x : Action V E α) :
    ((f <$> x).run g).graph = (x.run g).graph := by
  rw [run_map]

theorem graph_then_pure {α β : Type} (b : β) (x : Action V E α) :
    ((do let _ ← x; return b : Action V E β).run g).graph = (x.run g).graph := by
  rw [run_then_pure]

theorem run_constant (convert : D → Except E V) (d : D) :
    (constant convert d).run g =
      match convert d with
      | .ok v => ⟨.ok g.size, g.append (.fresh .const (some v)), [.added g.size Kind.const.tag]⟩
      | .error e => ⟨.error (.rule e), g, []⟩ := by
  rw [constant, run_bind, ofRule, run_ofExcept]
  cases convert d <;> rfl

theorem run_emptyVariable (s : String) :
    (emptyVariable s : Action V E Nat).run g =
      if (g.names.get? s).isSome then ⟨.error (.duplicatedName s), g, []⟩
      else ⟨.ok g.size, (g.append (.fresh .var none)).bindName s g.size,
        [.added g.size Kind.var.tag]⟩ := by
  rw [emptyVariable, run_bind, run_graph]
  by_cases h : (g.names.get? s).isSome
  · simp only [h, if_true]
    rfl
  · simp only [h, Bool.false_eq_true, if_false]
    rfl

theorem run_setName (r : Ref) (s : String) :
    (setName r s : Action V E (Option Nat)).run g =
      match g.check r with
      | .ok n => ⟨.ok (g.names.get? s), g.bindName s n, []⟩
      | .error e => ⟨.error e, g, []⟩ := by
  rw [setName, run_bind, check, run_read]
  cases g.check r <;> rfl

theorem run_unary (op : Unary) (arg : Ref) :
    (unary op arg : Action V E Nat).run g =
      match g.check arg with
      | .ok a =>
        ⟨.ok g.size, g.appendOperator (.unary op) [a], [.added g.size (Kind.unary op).tag]⟩
      | .error e => ⟨.error e, g, []⟩ := by
  rw [unary, run_bind, check, run_read]
  cases g.check arg <;> rfl

theorem run_binary (op : Binary) (lhs rhs : Ref) :
    (binary op lhs rhs : Action V E Nat).run g =
      match g.check lhs, g.check rhs with
      | .ok l, .ok r =>
        ⟨.ok g.size, g.appendOperator (.binary op) [l, r], [.added g.size (Kind.binary op).tag]⟩
      | .ok _, .error e => ⟨.error e, g, []⟩
      | .error e, _ => ⟨.error e, g, []⟩ := by
  rw [binary, run_bind, check, run_read]
  cases g.check lhs with
  | error e => rfl
  | ok l =>
      simp only [run_bind, check, run_read]
      cases g.check rhs <;> rfl

theorem run_sub (lhs rhs : Ref) :
    (sub lhs rhs : Action V E Nat).run g =
      match g.check rhs with
      | .ok r =>
        let h := g.appendOperator (.unary .neg) [r]
        let reply := (binary .add lhs (.node g.size) : Action V E Nat).run h
        ⟨reply.outcome, reply.graph, .added g.size (Kind.unary .neg).tag :: reply.events⟩
      | .error e => ⟨.error e, g, []⟩ := by
  rw [sub, run_bind, run_unary]
  cases g.check rhs <;> rfl

theorem run_invalidateNode (r : Ref) :
    (invalidateNode r : Action V E Unit).run g =
      match g.check r with
      | .ok n =>
        let result : Invalidation V E := invalidate g n
        ⟨result.outcome, result.graph,
          match result.outcome with
          | .ok _ =>
            if result.dependents.isEmpty then []
            else [.invalidated r result.dependents.length]
          | .error _ => []⟩
      | .error e => ⟨.error e, g, []⟩ := by
  rw [invalidateNode, run_bind, check, run_read]
  cases g.check r with
  | error e => rfl
  | ok n =>
      simp only [run_bind, run_graph, run_update, run_ofExcept]
      cases (invalidate g n : Invalidation V E).outcome with
      | error e => rfl
      | ok u => cases (invalidate g n : Invalidation V E).dependents <;> rfl

theorem run_setValue (convert : D → Except E V) (r : Ref) (d : D) :
    (setValue convert r d).run g =
      match g.check r with
      | .ok n =>
        if g.kind? n = some .var then
          match convert d with
          | .ok v => (invalidateNode r).run (g.withValue n (some v))
          | .error e => ⟨.error (.rule e), g, []⟩
        else ⟨.error (.notVariable r), g, []⟩
      | .error e => ⟨.error e, g, []⟩ := by
  rw [setValue, run_bind, check, run_read]
  cases g.check r with
  | error e => rfl
  | ok n =>
      simp only [run_bind, run_graph]
      split
      · simp only [run_bind, ofRule, run_ofExcept]
        cases convert d <;> rfl
      · rfl

theorem run_variableOf (conversion : Conversion D V E) (convert : D → Except E V) (s : String)
    (d : D) :
    (variableOf conversion convert s d).run g =
      match convert d with
      | .ok v =>
        if (g.names.get? s).isSome then ⟨.error (.duplicatedName s), g, []⟩
        else
          let reply := (setValue conversion.any (.node g.size) (conversion.data v)).run
            ((g.append (.fresh .var none)).bindName s g.size)
          ⟨reply.outcome.map fun _ => g.size, reply.graph,
            .added g.size Kind.var.tag :: reply.events⟩
      | .error e => ⟨.error (.rule e), g, []⟩ := by
  rw [variableOf, run_bind, ofRule, run_ofExcept]
  cases convert d with
  | error e => rfl
  | ok v =>
      simp only [Except.mapError_ok, run_bind, run_emptyVariable]
      by_cases h : (g.names.get? s).isSome
      · simp only [h, if_true]
        rfl
      · simp only [h, Bool.false_eq_true, if_false]
        generalize (setValue conversion.any (Ref.node g.size) (conversion.data v)).run
          ((g.append (.fresh .var none)).bindName s g.size) = reply
        obtain ⟨_ | _, k, events⟩ := reply <;> simp [Except.map]

theorem run_reportComputed (h : Graph V) (ns : List Nat) :
    (reportComputed h ns : Action V E Unit).run g =
      ⟨.ok (), g, ns.map fun n => .computed n (h.tag n)⟩ := by
  induction ns with
  | nil => rfl
  | cons n ns ih =>
      simp only [reportComputed, run_bind, run_report, ih]
      rfl

theorem run_evalValue (rules : Rules V E) (r : Ref) :
    (evalValue rules r).run g =
      match g.resolve r with
      | .ok n =>
        match g.value? n, r with
        | some v, _ => ⟨.ok v, g, [.hit r (g.tag n)]⟩
        | none, .name _ => ⟨.error (.notSubscript r), g, []⟩
        | none, _ =>
          let result := evaluate rules g n
          ⟨result.outcome >>= fun _ =>
              (result.graph.value? n).elim (.error (.valueUninitialized r)) .ok,
            result.graph, result.computed.map fun m => .computed m (result.graph.tag m)⟩
      | .error e => ⟨.error e, g, []⟩ := by
  rw [evalValue, run_bind, resolve, run_read]
  cases g.resolve r with
  | error e => rfl
  | ok n =>
      simp only [run_bind, run_graph]
      cases g.value? n with
      | some v => rfl
      | none =>
          cases r with
          | name s => rfl
          | _ =>
              simp only [run_bind, run_update, run_reportComputed, run_ofExcept]
              cases (evaluate rules g n).outcome <;> simp [bind, Except.bind]

theorem run_evalValue_node (rules : Rules V E) {n : Nat} (hn : n < g.size)
    (hv : g.value? n = none) :
    (evalValue rules (.node n)).run g =
      ⟨(evaluate rules g n).outcome >>= fun _ =>
          ((evaluate rules g n).graph.value? n).elim (.error (.valueUninitialized (.node n))) .ok,
        (evaluate rules g n).graph,
        (evaluate rules g n).computed.map fun m =>
          .computed m ((evaluate rules g n).graph.tag m)⟩ := by
  rw [run_evalValue, resolve_node hn]
  simp only [hv]
  rfl

theorem run_evalValue_of_value? (rules : Rules V E) {n : Nat} {v : V} (hv : g.value? n = some v) :
    (evalValue rules (.node n)).run g = ⟨.ok v, g, [.hit (.node n) (g.tag n)]⟩ := by
  rw [run_evalValue, resolve_node (lt_size_of_value? hv)]
  simp only [hv]

/-- A value that was computed is kept. -/
theorem value?_of_evalValue {g : Graph V} {rules : Rules V E} {n : Nat} (hn : n < g.size) {v : V}
    (hok : ((evalValue rules (.node n)).run g).outcome = .ok v) :
    ((evalValue rules (.node n)).run g).graph.value? n = some v := by
  cases hv : g.value? n with
  | some w =>
      rw [run_evalValue, resolve_node hn] at hok ⊢
      simp only [hv, Except.ok.injEq] at hok ⊢
      rw [hok]
  | none =>
      rw [run_evalValue_node g rules hn hv] at hok ⊢
      obtain ⟨-, -, hok⟩ := Except.bind_eq_ok_iff.1 hok
      cases hw : (evaluate rules g n).graph.value? n with
      | none =>
          rw [hw] at hok
          cases hok
      | some w =>
          rw [hw] at hok
          rw [Except.ok.inj hok]

theorem run_evalDeriv (rules : Rules V E) (r : Ref) :
    (evalDeriv rules r).run g =
      match g.resolve r with
      | .ok n =>
        match g.value? n, r with
        | none, _ => ⟨.error (.valueUninitialized r), g, []⟩
        | some _, .name _ => ⟨.error (.notSubscript r), g.withoutDerivs, []⟩
        | some v, _ =>
          let result := sweep rules g n v
          ⟨result.outcome, result.graph,
            match result.outcome with
            | .ok _ => [.backward r result.visited.length]
            | .error _ => []⟩
      | .error e => ⟨.error e, g, []⟩ := by
  rw [evalDeriv, run_bind, resolve, run_read]
  cases g.resolve r with
  | error e => rfl
  | ok n =>
      simp only [run_bind, run_graph]
      cases g.value? n with
      | none => rfl
      | some v =>
          cases r with
          | name s => rfl
          | _ =>
              simp only [run_bind, run_update, run_ofExcept]
              cases (sweep rules g n v).outcome <;> rfl

theorem run_evalDeriv_node (rules : Rules V E) {n : Nat} {v : V} (hv : g.value? n = some v) :
    (evalDeriv rules (.node n)).run g =
      ⟨(sweep rules g n v).outcome, (sweep rules g n v).graph,
        match (sweep rules g n v).outcome with
        | .ok _ => [.backward (.node n) (sweep rules g n v).visited.length]
        | .error _ => []⟩ := by
  rw [run_evalDeriv, resolve_node (lt_size_of_value? hv)]
  simp only [hv]
  rfl

/-- A reverse pass starts only from a node that holds a value. -/
theorem exists_value?_of_evalDeriv {g : Graph V} {rules : Rules V E} {n : Nat}
    (hok : ((evalDeriv rules (.node n)).run g).outcome = .ok ()) : ∃ v, g.value? n = some v := by
  rw [run_evalDeriv] at hok
  cases hr : (g.resolve (.node n) : Except (Fault E) Nat) with
  | error e =>
      rw [hr] at hok
      cases hok
  | ok m =>
      have hm : m = n := by
        rcases resolve_eq_ok_iff.1 hr with ⟨h, -⟩ | ⟨s, h, -⟩
        · rw [Ref.node, Ref.node, Ref.index.injEq, Int.ofNat_inj] at h
          exact h.symm
        · cases h
      subst hm
      cases hv : g.value? m with
      | some v => exact ⟨v, rfl⟩
      | none =>
          rw [hr] at hok
          simp only [hv] at hok
          cases hok

end Action

end DiffGraph
