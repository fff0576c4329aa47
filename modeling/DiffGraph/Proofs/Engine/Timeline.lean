import DiffGraph.Proofs.Engine.Course
import DiffGraph.Proofs.Graph.Unfolding

/-!
# The timeline of a session

Two things that happen in a session bear on the values of operators: a client assigns a variable,
and an evaluation applies a rule. `Graph.timeline` lists them in order over all calls, failed ones
included. Every call is a `Passage`: it is quiet, so that the graph at most grows and no operator
gains or loses a value, or it is an assignment, or an evaluation.
-/

namespace DiffGraph

variable {D V E : Type}

/-- What happens in a session that bears on the values of operators. -/
inductive Moment where
  /-- A client assigned a variable. -/
  | assigned (n : Nat)
  /-- The rule of an operator was applied, with success. -/
  | applied (n : Nat)
deriving Repr, DecidableEq

/-- The variable that a call assigns if it does not fail. -/
def Call.assigns? : Call D → Option Nat
  | .setValue (.index i) _ => some i.toNat
  | _ => none

/-- What happens up to a reply, given the variable that has been assigned if it is no failure. -/
def Reply.moments {α : Type} (r : Reply V E α) (assigned : Option Nat) : List Moment :=
  (match r.outcome with
    | .ok _ => assigned.toList.map .assigned
    | .error _ => []) ++ (r.events.filterMap Event.computed?).map .applied

/-- What happens during a call. -/
def Call.moments (conversion : Conversion D V E) (rules : Rules V E) (call : Call D)
    (g : Graph V) : List Moment :=
  ((call.perform conversion rules).run g).moments call.assigns?

namespace Graph

/-- What happens during a session that starts with the given graph. -/
def timeline (conversion : Conversion D V E) (rules : Rules V E) (g : Graph V) :
    List (Call D) → List Moment
  | [] => []
  | call :: calls =>
    call.moments conversion rules g ++
      ((call.perform conversion rules).run g).graph.timeline conversion rules calls

/-! ## Growth -/

/-- A graph is another one with further nodes. -/
structure Extends (g h : Graph V) : Prop where
  size_le : g.size ≤ h.size
  kind? : ∀ m < g.size, h.kind? m = g.kind? m
  inputsOf : ∀ m < g.size, h.inputsOf m = g.inputsOf m

/-- A graph is another one with further nodes, and no operator has gained or lost a value. -/
structure Grows (g h : Graph V) : Prop extends g.Extends h where
  value? : ∀ m, (h.kind? m).any Kind.isOperator → h.value? m = g.value? m

section

variable {rules : Rules V E} {g h k : Graph V} {n : Nat}

namespace Extends

@[refl] theorem refl (g : Graph V) : g.Extends g := ⟨Nat.le_refl _, fun _ _ => rfl, fun _ _ => rfl⟩

@[trans] theorem trans (h₁ : g.Extends h) (h₂ : h.Extends k) : g.Extends k where
  size_le := Nat.le_trans h₁.size_le h₂.size_le
  kind? m hm := by rw [h₂.kind? m (Nat.lt_of_lt_of_le hm h₁.size_le), h₁.kind? m hm]
  inputsOf m hm := by rw [h₂.inputsOf m (Nat.lt_of_lt_of_le hm h₁.size_le), h₁.inputsOf m hm]

theorem of_skeleton (e : h.skeleton = g.skeleton) : g.Extends h where
  size_le := Nat.le_of_eq (size_congr e).symm
  kind? m _ := kind?_congr e m
  inputsOf m _ := inputsOf_congr e m

/-- The operands that a node can be followed to are those it was appended with. -/
theorem reaches_iff (hx : g.Extends h) (hg : g.WellFormed) (hn : n < g.size) {m : Nat} :
    h.Reaches n m ↔ g.Reaches n m := by
  constructor
  · intro hr
    induction hr with
    | refl => exact .refl
    | @tail a b _ hu ih =>
        have ha : a < g.size := Reaches.lt_size ih hg hn
        rw [Uses, hx.inputsOf a ha] at hu
        exact ih.tail hu
  · intro hr
    induction hr with
    | refl => exact .refl
    | @tail a b hr hu ih =>
        have ha : a < g.size := Reaches.lt_size hr hg hn
        refine ih.tail ?_
        rw [Uses, hx.inputsOf a ha]
        exact hu

end Extends

namespace Grows

@[refl] theorem refl (g : Graph V) : g.Grows g := ⟨.refl g, fun _ _ => rfl⟩

@[trans] theorem trans (h₁ : g.Grows h) (h₂ : h.Grows k) : g.Grows k where
  toExtends := h₁.toExtends.trans h₂.toExtends
  value? m hm := by
    rw [h₂.value? m hm]
    rcases Nat.lt_or_ge m h.size with hlt | hge
    · rw [h₂.kind? m hlt] at hm
      exact h₁.value? m hm
    · rw [value?_eq_none_of_size_le hge,
        value?_eq_none_of_size_le (Nat.le_trans h₁.size_le hge)]

theorem append_leaf (g : Graph V) {k : Kind} (hk : k.isOperator = false) (v : Option V) :
    g.Grows (g.append (.fresh k v)) where
  size_le := by simp
  kind? m hm := by rw [kind?_append, if_neg (Nat.ne_of_lt hm)]
  inputsOf m _ := inputsOf_append_fresh g k v m
  value? m hm := by
    have hne : m ≠ g.size := by
      rintro rfl
      rw [kind?_append, if_pos rfl] at hm
      exact Bool.false_ne_true (hk.symm.trans hm)
    rw [value?_append, if_neg hne]

theorem appendOperator (g : Graph V) (k : Kind) (operands : List Nat) :
    g.Grows (g.appendOperator k operands) where
  size_le := by simp
  kind? m hm := by rw [kind?_appendOperator, if_neg (Nat.ne_of_lt hm)]
  inputsOf m hm := by rw [inputsOf_appendOperator, if_neg (Nat.ne_of_lt hm)]
  value? m _ := value?_appendOperator g k operands m

theorem bindName (g : Graph V) (s : String) (n : Nat) : g.Grows (g.bindName s n) where
  size_le := Nat.le_refl _
  kind? _ _ := rfl
  inputsOf _ _ := rfl
  value? _ _ := rfl

theorem withValue (g : Graph V) (hn : (g.kind? n).any Kind.isOperator = false) (v : Option V) :
    g.Grows (g.withValue n v) where
  toExtends := .of_skeleton (skeleton_withValue g n v)
  value? m hm := by
    refine value?_withValue_ne g n v ?_
    rintro rfl
    rw [kind?_congr (skeleton_withValue g m v), hn] at hm
    cases hm

theorem of_withoutDerivs (e : h.withoutDerivs = g.withoutDerivs) : g.Grows h where
  toExtends := .of_skeleton (skeleton_congr e)
  value? m _ := value?_congr e m

end Grows

end

end Graph

open DiffGraph.Graph

/-! ## Quiet replies -/

/-- A reply after which a graph has at most grown, without a rule having been applied. -/
structure Reply.Quiet {α : Type} (g : Graph V) (r : Reply V E α) : Prop where
  grows : g.Grows r.graph
  computed : r.events.filterMap Event.computed? = []

namespace Action

variable {rules : Rules V E} {g : Graph V}

theorem quiet_constant (convert : D → Except E V) (d : D) (g : Graph V) :
    ((constant convert d).run g).Quiet g := by
  rw [run_constant]
  cases convert d with
  | ok v => exact ⟨.append_leaf g rfl _, rfl⟩
  | error e => exact ⟨.refl g, rfl⟩

theorem quiet_emptyVariable (s : String) (g : Graph V) :
    ((emptyVariable s : Action V E Nat).run g).Quiet g := by
  rw [run_emptyVariable]
  split
  · exact ⟨.refl g, rfl⟩
  · exact ⟨(Grows.append_leaf g rfl _).trans (.bindName _ s _), rfl⟩

/-- To assign a variable that nothing depends on yet. -/
theorem quiet_setValue {n : Nat} (hn : g.kind? n = some .var) (hc : g.consumersOf n = [])
    (convert : D → Except E V) (d : D) : ((setValue convert (.node n) d).run g).Quiet g := by
  have hlt : n < g.size := lt_size_of_kind? hn
  rw [run_setValue, check_node hlt]
  simp only [hn, if_true]
  cases convert d with
  | error e => exact ⟨.refl g, rfl⟩
  | ok v =>
      have hlt' : n < (g.withValue n (some v)).size := by rwa [size_withValue]
      have hc' : (g.withValue n (some v)).consumersOf n = [] := by
        rwa [consumersOf_congr (skeleton_withValue g n _)]
      simp only [run_invalidateNode, check_node hlt', invalidate_of_no_consumers hc']
      refine ⟨.withValue g ?_ _, rfl⟩
      rw [hn]
      rfl

theorem quiet_variableOf (conversion : Conversion D V E) (convert : D → Except E V) (s : String)
    (d : D) (g : Graph V) : ((variableOf conversion convert s d).run g).Quiet g := by
  rw [run_variableOf]
  cases convert d with
  | error e => exact ⟨.refl g, rfl⟩
  | ok v =>
      simp only
      split
      · exact ⟨.refl g, rfl⟩
      · have hgrows : g.Grows ((g.append (.fresh .var none)).bindName s g.size) :=
          (Grows.append_leaf g rfl _).trans (.bindName _ s _)
        have hk : ((g.append (.fresh .var none)).bindName s g.size).kind? g.size = some .var := by
          change (g.append (.fresh .var none)).kind? g.size = some .var
          rw [kind?_append, if_pos rfl]
          rfl
        have hc : ((g.append (.fresh .var none)).bindName s g.size).consumersOf g.size = [] := by
          change (g.append (.fresh .var none)).consumersOf g.size = []
          rw [consumersOf_append_fresh, consumersOf_eq_nil_of_size_le (Nat.le_refl _)]
        have hq := quiet_setValue hk hc conversion.any (conversion.data v)
        exact ⟨hgrows.trans hq.grows, hq.computed⟩

theorem quiet_unary (op : Unary) (r : Ref) (g : Graph V) :
    ((unary op r : Action V E Nat).run g).Quiet g := by
  rw [run_unary]
  cases (g.check r : Except (Fault E) Nat) with
  | error e => exact ⟨.refl g, rfl⟩
  | ok a => exact ⟨.appendOperator g _ _, rfl⟩

theorem quiet_binary (op : Binary) (lhs rhs : Ref) (g : Graph V) :
    ((binary op lhs rhs : Action V E Nat).run g).Quiet g := by
  rw [run_binary]
  cases (g.check lhs : Except (Fault E) Nat) with
  | error e => exact ⟨.refl g, rfl⟩
  | ok l =>
      cases (g.check rhs : Except (Fault E) Nat) with
      | error e => exact ⟨.refl g, rfl⟩
      | ok r => exact ⟨.appendOperator g _ _, rfl⟩

theorem quiet_sub (lhs rhs : Ref) (g : Graph V) :
    ((sub lhs rhs : Action V E Nat).run g).Quiet g := by
  rw [run_sub]
  cases (g.check rhs : Except (Fault E) Nat) with
  | error e => exact ⟨.refl g, rfl⟩
  | ok r =>
      have hq := quiet_binary (E := E) .add lhs (.node g.size)
        (g.appendOperator (.unary .neg) [r])
      exact ⟨(Grows.appendOperator g _ _).trans hq.grows, hq.computed⟩

theorem quiet_setName (r : Ref) (s : String) (g : Graph V) :
    ((setName r s : Action V E (Option Nat)).run g).Quiet g := by
  rw [run_setName]
  cases (g.check r : Except (Fault E) Nat) with
  | error e => exact ⟨.refl g, rfl⟩
  | ok n => exact ⟨.bindName g s n, rfl⟩

theorem quiet_evalDeriv (rules : Rules V E) (r : Ref) (g : Graph V) :
    ((evalDeriv rules r).run g).Quiet g := by
  rw [run_evalDeriv]
  cases hr : (g.resolve r : Except (Fault E) Nat) with
  | error e => exact ⟨.refl g, rfl⟩
  | ok n =>
      cases hv : g.value? n with
      | none =>
          simp only [hv]
          exact ⟨.refl g, rfl⟩
      | some v =>
          simp only [hv]
          rcases resolve_eq_ok_iff.1 hr with ⟨rfl, -⟩ | ⟨s, rfl, -⟩
          · refine ⟨.of_withoutDerivs (withoutDerivs_sweep g n v), ?_⟩
            simp only [Ref.node]
            cases (sweep rules g n v).outcome <;> rfl
          · exact ⟨.of_withoutDerivs (withoutDerivs_withoutDerivs g), rfl⟩

end Action

/-! ## Calls -/

/-- What a call does to a graph, with what happens meanwhile. -/
inductive Passage (rules : Rules V E) (g : Graph V) : List Moment → Graph V → Prop
  /-- The graph at most grows. -/
  | quiet {h : Graph V} : g.Grows h → Passage rules g [] h
  /-- A variable is assigned, and the values that depend on it are dropped. -/
  | assign (n : Nat) (v : V) : g.kind? n = some .var →
      Passage rules g [.assigned n]
        (invalidate (g.withValue n (some v)) n : Invalidation V E).graph
  /-- A node is evaluated. -/
  | evaluate (n : Nat) : n < g.size →
      Passage rules g ((evaluate rules g n).computed.map .applied) (evaluate rules g n).graph

section

variable {rules : Rules V E} {g : Graph V}

theorem Reply.moments_none {α : Type} (r : Reply V E α) :
    r.moments none = (r.events.filterMap Event.computed?).map .applied := by
  unfold moments
  cases r.outcome <;> rfl

theorem Reply.moments_map {α β : Type} (r : Reply V E α) (f : α → β) (assigned : Option Nat) :
    (⟨r.outcome.map f, r.graph, r.events⟩ : Reply V E β).moments assigned =
      r.moments assigned := by
  unfold moments
  cases r.outcome <;> rfl

theorem Reply.Quiet.passage {α β : Type} {r : Reply V E α} (hq : r.Quiet g) (f : α → β) :
    Passage rules g ((⟨r.outcome.map f, r.graph, r.events⟩ : Reply V E β).moments none)
      r.graph := by
  rw [moments_map, moments_none, hq.computed]
  exact .quiet hq.grows

theorem computed_setValue (convert : D → Except E V) (r : Ref) (d : D) (g : Graph V) :
    ((Action.setValue convert r d).run g).events.filterMap Event.computed? = [] := by
  rw [Action.run_setValue]
  cases (g.check r : Except (Fault E) Nat) with
  | error e => rfl
  | ok n =>
      simp only
      split
      · cases convert d with
        | error c => rfl
        | ok v =>
            simp only [Action.run_invalidateNode]
            cases ((g.withValue n (some v)).check r : Except (Fault E) Nat) with
            | error e => rfl
            | ok m =>
                simp only
                split
                · split <;> rfl
                · rfl
      · rfl

theorem passage_setValue (hg : g.WellFormed) (convert : D → Except E V) (r : Ref) (d : D) :
    Passage rules g
      (((Action.setValue convert r d).run g).moments (Call.setValue r d).assigns?)
      ((Action.setValue convert r d).run g).graph := by
  cases hr : (g.check r : Except (Fault E) Nat) with
  | error e =>
      rw [Action.run_setValue, hr]
      exact .quiet (.refl g)
  | ok n =>
      obtain ⟨rfl, hn⟩ := check_eq_ok_iff.1 hr
      by_cases hk : g.kind? n = some .var
      · cases hd : convert d with
        | error c =>
            simp only [Action.run_setValue, hr, hk, if_true, hd]
            exact .quiet (.refl g)
        | ok v =>
            obtain ⟨events, hrun⟩ := hg.run_setValue hk hd
            have hc := computed_setValue convert (.node n) d g
            rw [hrun] at hc ⊢
            rw [Reply.moments, hc]
            exact .assign n v hk
      · simp only [Action.run_setValue, hr, hk, if_false]
        exact .quiet (.refl g)

theorem passage_evalValue (rules : Rules V E) (r : Ref) (g : Graph V) :
    Passage rules g (((Action.evalValue rules r).run g).moments none)
      ((Action.evalValue rules r).run g).graph := by
  rw [Reply.moments_none, Action.run_evalValue]
  cases hr : (g.resolve r : Except (Fault E) Nat) with
  | error e => exact .quiet (.refl g)
  | ok n =>
      cases hv : g.value? n with
      | some v =>
          simp only [hv]
          exact .quiet (.refl g)
      | none =>
          simp only [hv]
          rcases resolve_eq_ok_iff.1 hr with ⟨rfl, hn⟩ | ⟨s, rfl, -⟩
          · simp only [Ref.node, computed_map_computed]
            exact .evaluate n hn
          · exact .quiet (.refl g)

/-- Every call is quiet, an assignment, or an evaluation. -/
theorem passage_perform (hg : g.WellFormed) (conversion : Conversion D V E) (rules : Rules V E)
    (call : Call D) :
    Passage rules g (call.moments conversion rules g)
      ((call.perform conversion rules).run g).graph := by
  unfold Call.moments
  cases call with
  | constant form d =>
      rw [Call.perform, Action.run_map]
      exact (Action.quiet_constant _ d g).passage _
  | emptyVariable s =>
      rw [Call.perform, Action.run_map]
      exact (Action.quiet_emptyVariable s g).passage _
  | variableOf form s d =>
      rw [Call.perform, Action.run_map]
      exact (Action.quiet_variableOf conversion _ s d g).passage _
  | unary op a =>
      rw [Call.perform, Action.run_map]
      exact (Action.quiet_unary op a g).passage _
  | binary op l r =>
      rw [Call.perform, Action.run_map]
      exact (Action.quiet_binary op l r g).passage _
  | sub l r =>
      rw [Call.perform, Action.run_map]
      exact (Action.quiet_sub l r g).passage _
  | setName r s =>
      rw [Call.perform, Action.run_map]
      exact (Action.quiet_setName r s g).passage _
  | setValue r d =>
      rw [Call.perform, Action.run_then_pure, Reply.moments_map]
      exact passage_setValue hg conversion.any r d
  | evalValue r =>
      rw [Call.perform, Action.run_map, Reply.moments_map]
      exact passage_evalValue rules r g
  | evalDeriv r =>
      rw [Call.perform, Action.run_then_pure]
      exact (Action.quiet_evalDeriv rules r g).passage _
  | zeroDerivs =>
      exact .quiet (.of_withoutDerivs (withoutDerivs_withoutDerivs g))
  | getIndex s | getValue r | getDeriv r | operands r | consumers r =>
      rw [Call.perform, Action.run_map]
      exact Reply.Quiet.passage ⟨.refl g, rfl⟩ _

end

end DiffGraph
