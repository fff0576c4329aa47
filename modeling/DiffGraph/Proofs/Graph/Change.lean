import DiffGraph.Proofs.Graph.Replies
import Mathlib.Logic.Relation

/-!
# The changes that calls make

Whatever a client calls, and whether or not the call fails, the graph goes through a sequence of
the nine changes listed in `Change`, each with the checks that were passed before it. An invariant
of all sessions is proved with `after_induction`, one case for each kind of change.
-/

namespace DiffGraph

namespace Graph

variable {D V E : Type}

/-- One change of a graph, with what is known when it is made. -/
inductive Change (rules : Rules V E) : Graph V → Graph V → Prop
  /-- A constant is appended with its value. -/
  | constant (g : Graph V) (v : V) : Change rules g (g.append (.fresh .const (some v)))
  /-- A variable is appended under a new name. -/
  | emptyVariable (g : Graph V) (s : String) (h : g.names.get? s = none) :
      Change rules g ((g.append (.fresh .var none)).bindName s g.size)
  /-- An operator of one operand is appended. -/
  | unary (g : Graph V) (op : Unary) (a : Nat) (h : a < g.size) :
      Change rules g (g.appendOperator (.unary op) [a])
  /-- An operator of two operands is appended. -/
  | binary (g : Graph V) (op : Binary) (l r : Nat) (hl : l < g.size) (hr : r < g.size) :
      Change rules g (g.appendOperator (.binary op) [l, r])
  /-- A name is bound to a node. -/
  | name (g : Graph V) (s : String) (n : Nat) (h : n < g.size) : Change rules g (g.bindName s n)
  /-- A variable is assigned, and the values that depend on it are dropped. -/
  | assign (g : Graph V) (n : Nat) (v : V) (h : g.kind? n = some .var) :
      Change rules g (invalidate (g.withValue n (some v)) n : Invalidation V E).graph
  /-- A node without a value is evaluated. -/
  | evaluate (g : Graph V) (n : Nat) (h : n < g.size) : Change rules g (evaluate rules g n).graph
  /-- A reverse pass is run from a node with a value. -/
  | sweep (g : Graph V) (n : Nat) (v : V) (h : g.value? n = some v) :
      Change rules g (sweep rules g n v).graph
  /-- The gradients are cleared. -/
  | clear (g : Graph V) : Change rules g g.withoutDerivs

variable (conversion : Conversion D V E) (rules : Rules V E)

theorem changes_constant (convert : D → Except E V) (d : D) (g : Graph V) :
    Relation.ReflTransGen (Change rules) g ((Action.constant convert d).run g).graph := by
  rw [Action.run_constant]
  cases convert d with
  | ok v => exact .single (.constant g v)
  | error e => exact .refl

theorem changes_emptyVariable (s : String) (g : Graph V) :
    Relation.ReflTransGen (Change rules) g
      ((Action.emptyVariable s : Action V E Nat).run g).graph := by
  rw [Action.run_emptyVariable]
  cases h : g.names.get? s with
  | none => exact .single (.emptyVariable g s h)
  | some n => exact .refl

theorem changes_setValue (convert : D → Except E V) (r : Ref) (d : D) (g : Graph V) :
    Relation.ReflTransGen (Change rules) g ((Action.setValue convert r d).run g).graph := by
  rw [Action.run_setValue]
  cases hr : (g.check r : Except (Fault E) Nat) with
  | error e => exact .refl
  | ok n =>
      obtain ⟨rfl, hn⟩ := check_eq_ok_iff.1 hr
      by_cases hk : g.kind? n = some .var
      · simp only [hk, if_true]
        cases convert d with
        | error e => exact .refl
        | ok v =>
            have hn' : n < (g.withValue n (some v)).size := by rwa [size_withValue]
            simp only [Action.run_invalidateNode, check_node hn']
            exact .single (.assign g n v hk)
      · simp only [hk, if_false]
        exact .refl

theorem changes_variableOf (convert : D → Except E V) (s : String) (d : D) (g : Graph V) :
    Relation.ReflTransGen (Change rules) g
      ((Action.variableOf conversion convert s d).run g).graph := by
  rw [Action.run_variableOf]
  cases convert d with
  | error e => exact .refl
  | ok v =>
      cases h : g.names.get? s with
      | some n => exact .refl
      | none =>
          have hv : Change rules g _ := .emptyVariable g s h
          exact (Relation.ReflTransGen.single hv).trans
            (changes_setValue rules conversion.any (.node g.size) (conversion.data v) _)

theorem changes_unary (op : Unary) (r : Ref) (g : Graph V) :
    Relation.ReflTransGen (Change rules) g ((Action.unary op r : Action V E Nat).run g).graph := by
  rw [Action.run_unary]
  cases hr : (g.check r : Except (Fault E) Nat) with
  | error e => exact .refl
  | ok a => exact .single (.unary g op a (check_eq_ok_iff.1 hr).2)

theorem changes_binary (op : Binary) (lhs rhs : Ref) (g : Graph V) :
    Relation.ReflTransGen (Change rules) g
      ((Action.binary op lhs rhs : Action V E Nat).run g).graph := by
  rw [Action.run_binary]
  cases hl : (g.check lhs : Except (Fault E) Nat) with
  | error e => exact .refl
  | ok l =>
      cases hr : (g.check rhs : Except (Fault E) Nat) with
      | error e => exact .refl
      | ok r =>
          exact .single (.binary g op l r (check_eq_ok_iff.1 hl).2 (check_eq_ok_iff.1 hr).2)

theorem changes_sub (lhs rhs : Ref) (g : Graph V) :
    Relation.ReflTransGen (Change rules) g ((Action.sub lhs rhs : Action V E Nat).run g).graph := by
  rw [Action.run_sub]
  cases hr : (g.check rhs : Except (Fault E) Nat) with
  | error e => exact .refl
  | ok r =>
      have hneg : Change rules g _ := .unary g .neg r (check_eq_ok_iff.1 hr).2
      exact (Relation.ReflTransGen.single hneg).trans
        (changes_binary rules .add lhs (.node g.size) _)

theorem changes_setName (r : Ref) (s : String) (g : Graph V) :
    Relation.ReflTransGen (Change rules) g
      ((Action.setName r s : Action V E (Option Nat)).run g).graph := by
  rw [Action.run_setName]
  cases hr : (g.check r : Except (Fault E) Nat) with
  | error e => exact .refl
  | ok n => exact .single (.name g s n (check_eq_ok_iff.1 hr).2)

theorem changes_evalValue (r : Ref) (g : Graph V) :
    Relation.ReflTransGen (Change rules) g ((Action.evalValue rules r).run g).graph := by
  rw [Action.run_evalValue]
  cases hr : (g.resolve r : Except (Fault E) Nat) with
  | error e => exact .refl
  | ok n =>
      cases hv : g.value? n with
      | some v =>
          simp only [hv]
          exact .refl
      | none =>
          simp only [hv]
          rcases resolve_eq_ok_iff.1 hr with ⟨rfl, hn⟩ | ⟨s, rfl, -⟩
          · exact .single (.evaluate g n hn)
          · exact .refl

theorem changes_evalDeriv (r : Ref) (g : Graph V) :
    Relation.ReflTransGen (Change rules) g ((Action.evalDeriv rules r).run g).graph := by
  rw [Action.run_evalDeriv]
  cases hr : (g.resolve r : Except (Fault E) Nat) with
  | error e => exact .refl
  | ok n =>
      cases hv : g.value? n with
      | none =>
          simp only [hv]
          exact .refl
      | some v =>
          simp only [hv]
          rcases resolve_eq_ok_iff.1 hr with ⟨rfl, hn⟩ | ⟨s, rfl, -⟩
          · exact .single (.sweep g n v hv)
          · exact .single (.clear g)

/-- A call, failed or not, makes none but the listed changes. -/
theorem changes_perform (call : Call D) (g : Graph V) :
    Relation.ReflTransGen (Change rules) g
      ((call.perform conversion rules).run g).graph := by
  cases call with
  | constant form d =>
      rw [Call.perform, Action.graph_map]
      exact changes_constant rules _ d g
  | emptyVariable s =>
      rw [Call.perform, Action.graph_map]
      exact changes_emptyVariable rules s g
  | variableOf form s d =>
      rw [Call.perform, Action.graph_map]
      exact changes_variableOf conversion rules _ s d g
  | unary op a =>
      rw [Call.perform, Action.graph_map]
      exact changes_unary rules op a g
  | binary op l r =>
      rw [Call.perform, Action.graph_map]
      exact changes_binary rules op l r g
  | sub l r =>
      rw [Call.perform, Action.graph_map]
      exact changes_sub rules l r g
  | setName r s =>
      rw [Call.perform, Action.graph_map]
      exact changes_setName rules r s g
  | setValue r d =>
      rw [Call.perform, Action.graph_then_pure]
      exact changes_setValue rules _ r d g
  | evalValue r =>
      rw [Call.perform, Action.graph_map]
      exact changes_evalValue rules r g
  | evalDeriv r =>
      rw [Call.perform, Action.graph_then_pure]
      exact changes_evalDeriv rules r g
  | zeroDerivs => exact .single (.clear g)
  | getIndex s | getValue r | getDeriv r | operands r | consumers r =>
      rw [Call.perform, Action.graph_map]
      exact .refl

theorem changes_after (calls : List (Call D)) (g : Graph V) :
    Relation.ReflTransGen (Change rules) g (g.after conversion rules calls) := by
  induction calls generalizing g with
  | nil => exact .refl
  | cons call calls ih =>
      rw [after_cons]
      exact (changes_perform conversion rules call g).trans (ih _)

/-- What every change keeps holds after every session that starts with a graph where it holds. -/
theorem after_induction {P : Graph V → Prop} {g : Graph V} (start : P g)
    (step : ∀ h k, P h → Change rules h k → P k) (calls : List (Call D)) :
    P (g.after conversion rules calls) := by
  have h := changes_after conversion rules calls g
  generalize g.after conversion rules calls = k at h
  induction h with
  | refl => exact start
  | tail _ hstep ih => exact step _ _ ih hstep

end Graph

end DiffGraph
