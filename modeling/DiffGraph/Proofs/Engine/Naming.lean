import DiffGraph.Proofs.Engine.History
import DiffGraph.Proofs.Graph.Lookup

/-!
# Names in the place of indices

The engine walks over indices. A name is resolved where a node is looked at first, and is no index
to walk from: an evaluation by name answers with a value that is held already and computes none, and
a reverse pass by name ends before its first visit. Once a node has been evaluated by its index, its
name gives the same value.
-/

namespace DiffGraph

open DiffGraph.Graph

variable {D V E : Type}

namespace Action

variable {g : Graph V} {s : String} {n : Nat}

theorem outcome_getIndex_eq_ok_iff :
    ((getIndex s : Action V E Nat).run g).outcome = .ok n ↔ g.names.get? s = some n := by
  rw [getIndex, run_read, Graph.lookup]
  cases g.names.get? s <;> simp

theorem resolve_name (hs : g.names.get? s = some n) :
    (g.resolve (.name s) : Except (Fault E) Nat) = .ok n :=
  resolve_eq_ok_iff.2 (.inr ⟨s, rfl, hs⟩)

theorem run_evalValue_name (rules : Rules V E) (hs : g.names.get? s = some n) :
    (evalValue rules (.name s)).run g =
      match g.value? n with
      | some v => ⟨.ok v, g, [.hit (.name s) (g.tag n)]⟩
      | none => ⟨.error (.notSubscript (.name s)), g, []⟩ := by
  rw [run_evalValue, resolve_name hs]
  cases hv : g.value? n <;> simp only [hv]

theorem run_evalDeriv_name (rules : Rules V E) (hs : g.names.get? s = some n) :
    (evalDeriv rules (.name s)).run g =
      match g.value? n with
      | some _ => ⟨.error (.notSubscript (.name s)), g.withoutDerivs, []⟩
      | none => ⟨.error (.valueUninitialized (.name s)), g, []⟩ := by
  rw [run_evalDeriv, resolve_name hs]
  cases hv : g.value? n <;> simp only [hv]

theorem run_evalDeriv_of_value?_eq_none (rules : Rules V E) (hn : n < g.size)
    (hv : g.value? n = none) :
    (evalDeriv rules (.node n)).run g = ⟨.error (.valueUninitialized (.node n)), g, []⟩ := by
  rw [run_evalDeriv, resolve_node hn]
  simp only [hv]

end Action

theorem Graph.WellFormed.lt_size_of_get? {g : Graph V} (hg : g.WellFormed) {s : String} {n : Nat}
    (hs : g.names.get? s = some n) : n < g.size :=
  hg.named (s, n) (mem_of_lookup hs)

/-- An evaluation by name succeeds exactly if the node holds a value; then it gives that value, as
the evaluation by index does, and both leave the graph as it is. Otherwise it is refused and leaves
the graph as it is. After a successful evaluation by index the name gives the same value. A reverse
pass by name never succeeds: from a node without a value it is refused as by index, and from any
other it clears the gradients and changes nothing else. -/
theorem evalValue_name_iff_held (conversion : Conversion D V E) (rules : Rules V E)
    (calls : List (Call D)) {s : String} {n : Nat}
    (hs : ((Action.getIndex s : Action V E Nat).run
      (Graph.empty.after conversion rules calls)).outcome = .ok n) :
    let g := Graph.empty.after conversion rules calls
    let value (r : Ref) (h : Graph V) := (Action.evalValue rules r).run h
    let deriv (r : Ref) := (Action.evalDeriv rules r).run g
    (∀ v, (value (.name s) g).outcome = .ok v ↔ g.value? n = some v) ∧
      (∀ v, g.value? n = some v → (value (.node n) g).outcome = .ok v ∧
        (value (.node n) g).graph = g) ∧
      (value (.name s) g).graph = g ∧
      (g.value? n = none → (value (.name s) g).outcome = .error (.notSubscript (.name s))) ∧
      (∀ v, (value (.node n) g).outcome = .ok v →
        (value (.name s) (value (.node n) g).graph).outcome = .ok v ∧
          (value (.name s) (value (.node n) g).graph).graph = (value (.node n) g).graph) ∧
      (g.value? n = none →
        (deriv (.name s)).outcome = .error (.valueUninitialized (.name s)) ∧
          (deriv (.node n)).outcome = .error (.valueUninitialized (.node n)) ∧
          (deriv (.name s)).graph = g ∧ (deriv (.node n)).graph = g) ∧
      ((g.value? n).isSome →
        (deriv (.name s)).outcome = .error (.notSubscript (.name s)) ∧
          (deriv (.name s)).graph = g.withoutDerivs) := by
  intro g value deriv
  have hg : g.WellFormed := wellFormed_after conversion rules calls
  have hname : g.names.get? s = some n := Action.outcome_getIndex_eq_ok_iff.1 hs
  have hn := hg.lt_size_of_get? hname
  have hvalue : value (.name s) g = _ := Action.run_evalValue_name rules hname
  have hderiv : deriv (.name s) = _ := Action.run_evalDeriv_name rules hname
  have hafter : ∀ v, (value (.node n) g).outcome = .ok v →
      (value (.name s) (value (.node n) g).graph).outcome = .ok v ∧
        (value (.name s) (value (.node n) g).graph).graph = (value (.node n) g).graph := by
    intro v hok
    have hheld : (value (.node n) g).graph.value? n = some v := Action.value?_of_evalValue hn hok
    have hkept : (value (.node n) g).graph.names = g.names :=
      names_congr (enriches_evalValue hg hn).skeleton
    have hlater : value (.name s) (value (.node n) g).graph = _ :=
      Action.run_evalValue_name rules (by rw [hkept, hname])
    rw [hlater, hheld]
    exact ⟨rfl, rfl⟩
  cases hv : g.value? n with
  | none =>
      rw [hv] at hvalue hderiv
      have hindex : deriv (.node n) = _ := Action.run_evalDeriv_of_value?_eq_none rules hn hv
      rw [hvalue, hderiv, hindex]
      exact ⟨fun v => ⟨nofun, nofun⟩, nofun, rfl, fun _ => rfl, hafter,
        fun _ => ⟨rfl, rfl, rfl, rfl⟩, nofun⟩
  | some v =>
      rw [hv] at hvalue hderiv
      have hindex : value (.node n) g = _ := Action.run_evalValue_of_value? g rules hv
      rw [hvalue, hderiv]
      refine ⟨fun w => by simp, fun w hw => ?_, rfl, nofun, hafter, nofun, fun _ => ⟨rfl, rfl⟩⟩
      rw [hindex, Option.some.inj hw]
      exact ⟨rfl, rfl⟩

/-- The name of a square that was evaluated. -/
theorem evalValue_of_named_square :
    let g := Graph.empty.after .whole .whole
      [.constant .scalar 3, .unary .square (.node 0), .setName (.node 1) "y",
        .evalValue (.node 1), .evalDeriv (.node 1)]
    ((Action.getIndex "y" : Action Int String Nat).run g).outcome = .ok 1 ∧
      ((Action.evalValue Rules.whole (.name "y")).run g).outcome = .ok 9 ∧
      ((Action.evalDeriv Rules.whole (.name "y")).run g).outcome =
        .error (.notSubscript (.name "y")) ∧
      ((Action.evalDeriv Rules.whole (.name "y")).run g).graph = g.withoutDerivs := by
  intro g
  have hs : ((Action.getIndex "y" : Action Int String Nat).run g).outcome = .ok 1 := by
    decide +kernel
  obtain ⟨hvalue, -, -, -, -, -, hderiv⟩ := evalValue_name_iff_held .whole .whole
    [.constant .scalar 3, .unary .square (.node 0), .setName (.node 1) "y",
      .evalValue (.node 1), .evalDeriv (.node 1)] hs
  exact ⟨hs, (hvalue 9).2 (by decide +kernel), hderiv (by decide +kernel)⟩

/-- A square can be evaluated by its index and not by its name, and once it is evaluated it can be
differentiated by its index and not by its name. -/
theorem square_refused_by_name :
    let g := Graph.empty.after .whole .whole
      [.constant .scalar 3, .unary .square (.node 0), .setName (.node 1) "y"]
    let g' := g.after .whole .whole [.evalValue (.node 1)]
    ((Action.getIndex "y" : Action Int String Nat).run g).outcome = .ok 1 ∧
      ((Action.evalValue Rules.whole (.node 1)).run g).outcome = .ok 9 ∧
      ((Action.evalValue Rules.whole (.name "y")).run g).outcome =
        .error (.notSubscript (.name "y")) ∧
      ((Action.getIndex "y" : Action Int String Nat).run g').outcome = .ok 1 ∧
      ((Action.evalDeriv Rules.whole (.node 1)).run g').outcome = .ok () ∧
      ((Action.evalDeriv Rules.whole (.name "y")).run g').outcome =
        .error (.notSubscript (.name "y")) := by
  decide +kernel

end DiffGraph
