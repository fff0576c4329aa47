import DiffGraph.Proofs.Engine.Course
import DiffGraph.Proofs.Graph.Unfolding

/-!
# The arena that a session leaves

An edge is kept in three places: with the operands of its end, with the consumers of its start, and
in the list of all edges. After any session the three agree, and every edge goes to a later node.
The faults that tell of anything else, which are listed in `Fault.Structural`, are met by no call.
-/

namespace DiffGraph

variable {D V E : Type}

/-- A fault of the graph itself: an operator or a constant that lacks something, an edge to no
node, or operands that lead in a circle. -/
def Fault.Structural : Fault E → Prop
  | .unaryArity _ _ | .binaryArity _ _ | .constantWithoutValue _ | .subscriptOutOfRange
  | .cyclic => True
  | _ => False

/-- An outcome that tells of no fault of the graph itself. -/
def Harmless {α : Type} (x : Except (Fault E) α) : Prop := ∀ e, x = .error e → ¬ e.Structural

namespace Harmless

variable {α β : Type} {x : Except (Fault E) α}

theorem ok (a : α) : Harmless (.ok a : Except (Fault E) α) := nofun

theorem error {e : Fault E} (he : ¬ e.Structural) : Harmless (.error e : Except (Fault E) α) := by
  intro e' h
  rwa [← Except.error.inj h]

theorem bind {f : α → Except (Fault E) β} (hx : Harmless x)
    (hf : ∀ a, x = .ok a → Harmless (f a)) : Harmless (x >>= f) := by
  cases x with
  | error e => exact error (hx e rfl)
  | ok a => exact hf a rfl

theorem rule (x : Except E α) : Harmless (x.mapError Fault.rule) := by
  cases x with
  | error c => exact error id
  | ok a => exact ok a

theorem elim {e : Fault E} (he : ¬ e.Structural) (o : Option α) :
    Harmless (o.elim (.error e) .ok) := by
  cases o with
  | none => exact error he
  | some a => exact ok a

end Harmless

namespace Graph

variable {rules : Rules V E} {g h : Graph V} {n : Nat} {d : V} {e : Fault E}

/-! ## References -/

theorem harmless_check (g : Graph V) (r : Ref) : Harmless (g.check r : Except (Fault E) Nat) := by
  unfold check
  split
  · split
    · exact .ok _
    · exact .error id
  · exact .error id

theorem harmless_lookup (g : Graph V) (s : String) :
    Harmless (g.lookup s : Except (Fault E) Nat) := .elim id _

theorem harmless_resolve (g : Graph V) (r : Ref) :
    Harmless (g.resolve r : Except (Fault E) Nat) := by
  unfold resolve
  split
  · exact g.harmless_lookup _
  · exact g.harmless_check r

theorem WellFormed.operands_eq (hg : g.WellFormed) (hn : n < g.size) :
    (g.operands n : Except (Fault E) (List Nat)) = .ok (g.inputsOf n) := by
  obtain ⟨app, ha⟩ := hg.exists_application (E := E) hn
  rw [operands, ha, ← hg.operands_of_application ha]
  rfl

/-! ## Evaluation -/

/-- An evaluation of a well-formed graph gets stuck at a variable or at a rule. -/
theorem Stuck.not_structural {path : List Nat} (hs : Stuck rules g e path) (hg : g.WellFormed)
    (hn : ∀ m, path.head? = some m → m < g.size) : ¬ e.Structural := by
  induction hs with
  | @fault n hv ha =>
      obtain ⟨k, hk⟩ := exists_kind? (hn n rfl)
      unfold awaited at ha
      rw [hk] at ha
      cases k with
      | var =>
          cases ha
          exact id
      | const =>
          obtain ⟨v, hv'⟩ := Option.isSome_iff_exists.1 (hg.constant n hk)
          rw [hv] at hv'
          cases hv'
      | unary op | binary op =>
          obtain ⟨app, happ⟩ := hg.exists_application (E := E) (hn n rfl)
          cases ha.symm.trans happ
  | @rule n app _ ha hheld hres =>
      obtain ⟨c, rfl⟩ := eq_rule_of_result ha hheld hres
      exact id
  | @above n a app path _ ha hfind _ ih =>
      refine ih fun m hm => ?_
      have hma : a = m := Option.some.inj hm
      have hlt := hg.operand_lt (awaited_eq_ok_iff.1 ha).2 (List.mem_of_find?_eq_some hfind)
      rw [← hma]
      exact Nat.lt_trans hlt (hn n rfl)

theorem WellFormed.harmless_evaluate (hg : g.WellFormed) (hn : n < g.size) :
    Harmless (evaluate rules g n).outcome := by
  intro e he
  have hr := recalls_evaluate rules hg.ascending hn
  obtain ⟨m, path, hfind, hs⟩ := hr.stuck hg.ascending he
  refine hs.not_structural (hr.enriches.wellFormed hg) fun k hk => ?_
  have hm : m = n := List.mem_singleton.1 (List.mem_of_find?_eq_some hfind)
  rw [← Option.some.inj hk, hm, size_congr hr.enriches.skeleton]
  exact hn

/-! ## The reverse pass -/

theorem harmless_operandValue (g : Graph V) (n : Nat) :
    Harmless (g.operandValue n : Except (Fault E) V) := .elim id _

theorem harmless_accumulated (rules : Rules V E) (g : Graph V) (n : Nat) (d : V) :
    Harmless (g.accumulated rules n d) := by
  unfold accumulated
  split
  · exact .ok d
  · exact .rule _

theorem WellFormed.harmless_contributions (hg : g.WellFormed) (hn : n < g.size) :
    Harmless (g.contributions rules n d) := by
  obtain ⟨app, ha⟩ := hg.exists_application (E := E) hn
  unfold contributions
  rw [ha, Except.ok_bind]
  cases app with
  | leaf => exact .ok []
  | unary op a =>
      exact .bind (g.harmless_operandValue a) fun x _ => .bind (.rule _) fun _ _ => .ok _
  | binary op l r =>
      exact .bind (g.harmless_operandValue l) fun x _ =>
        .bind (g.harmless_operandValue r) fun y _ => .bind (.rule _) fun _ _ => .ok _

/-- The bound on the visits is never met, as long as there is room for all that the stack can lead
to. -/
theorem WellFormed.harmless_sweepStack (hg : g.WellFormed) {steps : Nat}
    {stack : List (Nat × V)} {done : List Nat} (same : h.withoutDerivs = g.withoutDerivs)
    (hlt : ∀ p ∈ stack, p.1 < g.size) (hroom : room stack ≤ steps) :
    Harmless (sweepStack rules steps stack h done).outcome := by
  fun_induction sweepStack rules steps stack h done with
  | case1 => exact .ok ()
  | case2 p stack h done =>
      have hpos := Nat.two_pow_pos p.1
      rw [room_cons, Nat.pow_succ] at hroom
      omega
  | case3 steps n d stack h done e' ha =>
      exact .error (harmless_accumulated rules h n d e' ha)
  | case4 steps n d stack h done total _ h' e' hc =>
      rw [contributions_congr ((withoutDerivs_withDeriv h n _).trans same)] at hc
      exact .error (hg.harmless_contributions (hlt (n, d) List.mem_cons_self) e' hc)
  | case5 steps n d stack h done total _ h' parts hc ih =>
      have same' := (withoutDerivs_withDeriv h n (some total)).trans same
      rw [contributions_congr same'] at hc
      have hroom' := room_contributions hg hc
      rw [room_cons] at hroom
      refine ih same' ?_ ?_
      · intro p hp
        rcases List.mem_append.1 hp with hp | hp
        · have hu : p.1 ∈ g.inputsOf n := by
            rw [← map_fst_contributions hg hc]
            exact List.mem_map_of_mem hp
          exact Nat.lt_trans (hg.earlier n p.1 hu) (hlt (n, d) List.mem_cons_self)
        · exact hlt p (List.mem_cons_of_mem _ hp)
      · rw [room_append]
        simp only at hroom
        omega

theorem WellFormed.harmless_sweep (hg : g.WellFormed) (v : V) (hn : n < g.size) :
    Harmless (sweep rules g n v).outcome := by
  refine hg.harmless_sweepStack (withoutDerivs_withoutDerivs g) ?_ ?_
  · intro p hp
    rw [List.mem_singleton.1 hp]
    exact hn
  · have hle : 2 ^ (n + 1) ≤ sweepSteps g := Nat.pow_le_pow_right (by omega) hn
    simp only [room, List.map_cons, List.map_nil, List.sum_cons, List.sum_nil]
    omega

end Graph

/-! ## Calls -/

namespace Action

open DiffGraph.Graph

variable {α β : Type} {rules : Rules V E} {g : Graph V}

/-- An action that meets no fault of the graph itself. -/
def Sound (x : Action V E α) (g : Graph V) : Prop := Harmless (x.run g).outcome

theorem Sound.bind {x : Action V E α} {f : α → Action V E β} (hx : x.Sound g)
    (hf : ∀ a, (x.run g).outcome = .ok a → (f a).Sound (x.run g).graph) : (x >>= f).Sound g := by
  unfold Sound at *
  rw [run_bind]
  cases hr : x.run g with
  | mk outcome h events =>
      rw [hr] at hx hf
      cases outcome with
      | error e => exact .error (hx e rfl)
      | ok a => exact hf a rfl

theorem Sound.map {x : Action V E α} (f : α → β) (hx : x.Sound g) : (f <$> x).Sound g :=
  hx.bind fun a _ => .ok (f a)

theorem Sound.then_pure {x : Action V E α} (b : β) (hx : x.Sound g) :
    (do let _ ← x; return b : Action V E β).Sound g :=
  hx.bind fun _ _ => .ok b

theorem sound_check (r : Ref) (g : Graph V) : (check r : Action V E Nat).Sound g :=
  g.harmless_check r

theorem sound_constant (convert : D → Except E V) (d : D) (g : Graph V) :
    (constant convert d).Sound g :=
  Sound.bind (.rule (convert d)) fun _ _ => .ok g.size

theorem sound_emptyVariable (s : String) (g : Graph V) :
    (emptyVariable s : Action V E Nat).Sound g := by
  unfold Sound
  rw [run_emptyVariable]
  split
  · exact .error id
  · exact .ok g.size

theorem sound_setValue (hg : g.WellFormed) (convert : D → Except E V) (r : Ref) (d : D) :
    (setValue convert r d).Sound g := by
  unfold Sound
  cases hr : (g.check r : Except (Fault E) Nat) with
  | error e =>
      rw [run_setValue, hr]
      exact .error (g.harmless_check r e hr)
  | ok n =>
      obtain ⟨rfl, -⟩ := check_eq_ok_iff.1 hr
      by_cases hk : g.kind? n = some .var
      · cases hd : convert d with
        | ok v =>
            obtain ⟨events, hrun⟩ := hg.run_setValue hk hd
            rw [hrun]
            exact .ok ()
        | error c =>
            simp only [run_setValue, hr, hk, if_true, hd]
            exact .error id
      · simp only [run_setValue, hr, hk, if_false]
        exact .error id

theorem sound_variableOf (hg : g.WellFormed) (conversion : Conversion D V E)
    (convert : D → Except E V) (s : String) (d : D) :
    (variableOf conversion convert s d).Sound g := by
  have hg' : ((emptyVariable s : Action V E Nat).run g).graph.WellFormed := by
    rw [run_emptyVariable]
    split
    · exact hg
    · exact (hg.append_leaf (k := .var) (v := none) rfl nofun).bindName s (n := g.size) (by simp)
  exact Sound.bind (.rule (convert d)) fun v _ => (sound_emptyVariable s g).bind fun n _ =>
    (sound_setValue hg' conversion.any (.node n) (conversion.data v)).then_pure n

theorem sound_unary (op : Unary) (r : Ref) (g : Graph V) :
    (unary op r : Action V E Nat).Sound g :=
  (sound_check r g).bind fun _ _ => .ok g.size

theorem sound_binary (op : Binary) (lhs rhs : Ref) (g : Graph V) :
    (binary op lhs rhs : Action V E Nat).Sound g :=
  (sound_check lhs g).bind fun _ _ => (sound_check rhs g).bind fun _ _ => .ok g.size

theorem sound_sub (lhs rhs : Ref) (g : Graph V) : (sub lhs rhs : Action V E Nat).Sound g :=
  (sound_unary .neg rhs g).bind fun m _ => sound_binary .add lhs (.node m) _

theorem sound_setName (r : Ref) (s : String) (g : Graph V) :
    (setName r s : Action V E (Option Nat)).Sound g :=
  (sound_check r g).bind fun _ _ => .ok (g.names.get? s)

theorem sound_evalValue (hg : g.WellFormed) (r : Ref) : (evalValue rules r).Sound g := by
  unfold Sound
  rw [run_evalValue]
  cases hr : (g.resolve r : Except (Fault E) Nat) with
  | error e => exact .error (g.harmless_resolve r e hr)
  | ok n =>
      simp only
      split
      · exact .ok _
      · exact .error id
      · rename_i hname
        rcases resolve_eq_ok_iff.1 hr with ⟨rfl, hn⟩ | ⟨s, rfl, -⟩
        · exact .bind (hg.harmless_evaluate hn) fun _ _ => .elim id _
        · exact (hname s rfl).elim

theorem sound_evalDeriv (hg : g.WellFormed) (r : Ref) : (evalDeriv rules r).Sound g := by
  unfold Sound
  rw [run_evalDeriv]
  cases hr : (g.resolve r : Except (Fault E) Nat) with
  | error e => exact .error (g.harmless_resolve r e hr)
  | ok n =>
      simp only
      split
      · exact .error id
      · exact .error id
      · rename_i v _ hname
        rcases resolve_eq_ok_iff.1 hr with ⟨rfl, hn⟩ | ⟨s, rfl, -⟩
        · exact hg.harmless_sweep v hn
        · exact (hname s rfl).elim

theorem sound_getIndex (s : String) (g : Graph V) : (getIndex s : Action V E Nat).Sound g :=
  g.harmless_lookup s

theorem sound_getValue (r : Ref) (g : Graph V) : (getValue r : Action V E V).Sound g :=
  Harmless.bind (g.harmless_check r) fun n _ => .elim id (g.value? n)

theorem sound_getDeriv (r : Ref) (g : Graph V) : (getDeriv r : Action V E V).Sound g :=
  Harmless.bind (g.harmless_check r) fun n _ => .elim id (g.deriv? n)

theorem sound_operands (hg : g.WellFormed) (r : Ref) :
    (operands r : Action V E (List Nat)).Sound g := by
  refine Harmless.bind (g.harmless_check r) fun n hn => ?_
  rw [hg.operands_eq (check_eq_ok_iff.1 hn).2]
  exact .ok _

theorem sound_consumers (r : Ref) (g : Graph V) :
    (consumers r : Action V E (List Int)).Sound g :=
  Harmless.bind (g.harmless_check r) fun n _ => .ok (g.consumersOf n)

end Action

/-- No call on a well-formed graph meets a fault of the graph itself. -/
theorem Call.sound (conversion : Conversion D V E) (rules : Rules V E) {g : Graph V}
    (hg : g.WellFormed) (call : Call D) : (call.perform conversion rules).Sound g := by
  cases call with
  | constant form d => exact (Action.sound_constant _ d g).map _
  | emptyVariable s => exact (Action.sound_emptyVariable s g).map _
  | variableOf form s d => exact (Action.sound_variableOf hg conversion _ s d).map _
  | unary op a => exact (Action.sound_unary op a g).map _
  | binary op l r => exact (Action.sound_binary op l r g).map _
  | sub l r => exact (Action.sound_sub l r g).map _
  | setName r s => exact (Action.sound_setName r s g).map _
  | getIndex s => exact (Action.sound_getIndex s g).map _
  | setValue r d => exact (Action.sound_setValue hg _ r d).then_pure _
  | getValue r => exact (Action.sound_getValue r g).map _
  | getDeriv r => exact (Action.sound_getDeriv r g).map _
  | operands r => exact (Action.sound_operands hg r).map _
  | consumers r => exact (Action.sound_consumers r g).map _
  | evalValue r => exact (Action.sound_evalValue hg r).map _
  | evalDeriv r => exact (Action.sound_evalDeriv hg r).then_pure _
  | zeroDerivs => exact .ok _

/-! ## The arena -/

namespace Graph

variable {g : Graph V}

theorem Ascending.not_transGen_uses (hg : g.Ascending) (n : Nat) :
    ¬ Relation.TransGen g.Uses n n := by
  have hlt : ∀ m, Relation.TransGen g.Uses n m → m < n := by
    intro m hm
    induction hm with
    | single h => exact hg n _ h
    | tail _ h ih => exact Nat.lt_trans (hg _ _ h) ih
  exact fun h => Nat.lt_irrefl n (hlt n h)

theorem WellFormed.outcome_operands (hg : g.WellFormed) {n : Nat} (hn : n < g.size) :
    ((Action.operands (.node n) : Action V E (List Nat)).run g).outcome = .ok (g.inputsOf n) := by
  rw [Action.operands, Action.run_read, check_node hn, Except.ok_bind]
  exact hg.operands_eq hn

theorem outcome_consumers {n : Nat} (hn : n < g.size) :
    ((Action.consumers (.node n) : Action V E (List Int)).run g).outcome =
      .ok (g.consumersOf n) := by
  rw [Action.consumers, Action.run_read, check_node hn, Except.ok_bind]
  rfl

theorem WellFormed.edge_lt (hg : g.WellFormed) {e : Nat × Int} (he : e ∈ g.edges.toList) :
    ∃ n : Nat, e.2 = n ∧ e.1 < n ∧ n < g.size := by
  rw [hg.edges] at he
  obtain ⟨n, hn, he⟩ := List.mem_flatMap.1 he
  obtain ⟨a, ha, rfl⟩ := List.mem_map.1 he
  exact ⟨n, rfl, hg.earlier n a ha, List.mem_range.1 hn⟩

end Graph

open DiffGraph.Graph

/-- After any session, failed calls included: each node has the operands that its kind takes, and
a constant its value; the edges are the operands of all nodes in order, those from a node end at
its consumers, and all lead to a later node; names are bound to nodes of the graph. So no call
meets a fault of the graph itself, and no node leads back to itself. -/
theorem arena_after (conversion : Conversion D V E) (rules : Rules V E) (calls : List (Call D)) :
    let g := Graph.empty.after conversion rules calls
    (∀ n k, g.kind? n = some k →
      ((Action.operands (.node n) : Action V E (List Nat)).run g).outcome = .ok (g.inputsOf n) ∧
        (g.inputsOf n).length = k.arity ∧ (k = .const → (g.value? n).isSome)) ∧
    (g.edges.toList =
      (List.range g.size).flatMap fun n => (g.inputsOf n).map fun a => (a, (n : Int))) ∧
    (∀ n < g.size, ((Action.consumers (.node n) : Action V E (List Int)).run g).outcome =
      .ok ((g.edges.toList.filter fun e => e.1 = n).map Prod.snd)) ∧
    (∀ e ∈ g.edges.toList, ∃ n : Nat, e.2 = n ∧ e.1 < n ∧ n < g.size) ∧
    (∀ e ∈ g.names, e.2 < g.size) ∧
    (∀ (call : Call D) (e : Fault E),
      ((call.perform conversion rules).run g).outcome = .error e → ¬ e.Structural) ∧
    ∀ n, ¬ Relation.TransGen g.Uses n n := by
  intro g
  have hg : g.WellFormed := wellFormed_after conversion rules calls
  refine ⟨?_, hg.edges, ?_, ?_, hg.named, ?_, hg.ascending.not_transGen_uses⟩
  · intro n k hk
    refine ⟨hg.outcome_operands (lt_size_of_kind? hk), hg.arity n k hk, ?_⟩
    rintro rfl
    exact hg.constant n hk
  · intro n hn
    rw [outcome_consumers hn, hg.consumers n]
  · intro e he
    exact hg.edge_lt he
  · exact fun call => call.sound conversion rules hg

/-- A variable times itself, then a difference whose left operand does not exist: the opposite of
the right one stays behind, with its edge, and the variable is consumed twice by its product. -/
theorem arena_after_failed_sub :
    let g : Graph Int := Graph.empty.after .whole .whole
      [.emptyVariable "x", .binary .mul (.node 0) (.node 0), .sub (.node 7) (.node 1),
        .setName (.node 2) "x", .evalValue (.node 2)]
    g.edges.toList = [(0, 1), (0, 1), (1, 2)] ∧
      ((Action.consumers (.node 0) : Action Int String (List Int)).run g).outcome = .ok [1, 1] ∧
      ¬ Relation.TransGen g.Uses 2 2 := by
  intro g
  obtain ⟨-, -, hconsumers, -, -, -, hacyclic⟩ := arena_after Conversion.whole Rules.whole
    [.emptyVariable "x", .binary .mul (.node 0) (.node 0), .sub (.node 7) (.node 1),
      .setName (.node 2) "x", .evalValue (.node 2)]
  refine ⟨by decide +kernel, ?_, hacyclic 2⟩
  rw [hconsumers 0 (by decide +kernel)]
  decide +kernel

end DiffGraph
