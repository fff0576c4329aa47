import DiffGraph.Proofs.Engine.Coherence

/-!
# The course of an evaluation

An evaluation is held against the memoised recursion node by node: what it answers, what it leaves
in the graph, and which rules it applies in which order. Nothing is asked of the graph but that its
edges go to later nodes, so operators may lack operands and constants may lack values.

An evaluation that fails has stopped somewhere. `Stuck` reads off the graph that it leaves where
that was: from each node the path goes on to the first operand that has no value, and at its end
there is a node that has nothing to apply, or whose rule fails.
-/

namespace DiffGraph

/-- The node that an event reports as computed. -/
def Event.computed? : Event → Option Nat
  | .computed n _ => some n
  | _ => none

theorem computed_map_computed {V : Type} (g : Graph V) (ns : List Nat) :
    (ns.map fun n => Event.computed n (g.tag n)).filterMap Event.computed? = ns := by
  rw [List.filterMap_map]
  exact List.filterMap_some

namespace Graph

variable {V E : Type} {rules : Rules V E} {g h : Graph V} {n : Nat} {ns : List Nat}
  {ev : Evaluation V E} {e : Fault E}

/-- The nodes that wait for each other, from the top, in a graph where an evaluation has failed. -/
inductive Stuck (rules : Rules V E) (g : Graph V) (e : Fault E) : List Nat → Prop
  | fault {n : Nat} :
      g.value? n = none → g.awaited n = .error e → Stuck rules g e [n]
  | rule {n : Nat} {app : Application} :
      g.value? n = none → (g.awaited n : Except (Fault E) Application) = .ok app →
      (∀ a ∈ app.operands, ∃ v, g.value? a = some v) → g.result rules n = .error e →
      Stuck rules g e [n]
  | above {n a : Nat} {app : Application} {path : List Nat} :
      g.value? n = none → (g.awaited n : Except (Fault E) Application) = .ok app →
      app.operands.find? (fun a => (g.value? a).isNone) = some a → Stuck rules g e (a :: path) →
      Stuck rules g e (n :: a :: path)

theorem Stuck.value?_eq_none {path : List Nat} (hs : Stuck rules g e path) :
    ∀ m ∈ path, g.value? m = none := by
  induction hs with
  | fault hv | rule hv =>
      intro m hm
      rwa [List.mem_singleton.1 hm]
  | above hv _ _ _ ih =>
      intro m hm
      rcases List.mem_cons.1 hm with rfl | hm
      · exact hv
      · exact ih m hm

/-! ## Which nodes are computed -/

theorem find?_isNone_cons_of_value? {v : V} (hv : g.value? n = some v) :
    (n :: ns).find? (fun a => (g.value? a).isNone) = ns.find? fun a => (g.value? a).isNone :=
  List.find?_cons_of_neg (by simp [hv])

theorem find?_isNone_cons_of_missing (hv : g.value? n = none) :
    (n :: ns).find? (fun a => (g.value? a).isNone) = some n :=
  List.find?_cons_of_pos (by simp [hv])

/-- The nodes computed are the nodes that have gained a value. -/
theorem Recalls.mem_computed_iff (hr : Recalls rules g ns ev) (hg : g.Ascending) {m : Nat} :
    m ∈ ev.computed ↔ g.value? m = none ∧ ∃ v, ev.graph.value? m = some v := by
  induction hr with
  | nil | fault => simp +contextual
  | held _ _ ih => exact ih hg
  | operand _ _ _ ih | rule _ _ _ _ ih => exact ih hg
  | @computed g h k n ns done later app v outcome hv ha hr₁ _ hr₂ ih₁ ih₂ =>
      have he := hr₁.enriches.withValue v hv (awaited_eq_ok_iff.1 ha).1
      have hn : n < h.size := by
        rw [size_congr hr₁.enriches.skeleton]
        exact lt_size_of_awaited ha
      have hself := value?_withValue_self h n (some v) hn
      rw [List.mem_append, List.mem_cons, ih₁ hg, ih₂ (he.ascending hg)]
      constructor
      · rintro (⟨hm, w, hw⟩ | rfl | ⟨hm, hw⟩)
        · have hmn : m ≠ n := by
            rintro rfl
            rw [(hr₁.still_awaited hg hv ha).1] at hw
            cases hw
          exact ⟨hm, w, hr₂.enriches.keeps m w ((value?_withValue_ne h n _ hmn).trans hw)⟩
        · exact ⟨hv, v, hr₂.enriches.keeps m v hself⟩
        · refine ⟨?_, hw⟩
          by_contra hm'
          obtain ⟨w, hw'⟩ := Option.ne_none_iff_exists'.1 hm'
          rw [he.keeps m w hw'] at hm
          cases hm
      · rintro ⟨hm, hw⟩
        by_cases hmn : m = n
        · exact .inr (.inl hmn)
        · cases hm' : h.value? m with
          | some w => exact .inl ⟨hm, w, rfl⟩
          | none => exact .inr (.inr ⟨(value?_withValue_ne h n _ hmn).trans hm', hw⟩)

theorem Recalls.nodup_computed (hr : Recalls rules g ns ev) (hg : g.Ascending) :
    ev.computed.Nodup := by
  induction hr with
  | nil | fault => exact List.nodup_nil
  | held _ _ ih => exact ih hg
  | operand _ _ _ ih | rule _ _ _ _ ih => exact ih hg
  | @computed g h k n ns done later app v outcome hv ha hr₁ _ hr₂ ih₁ ih₂ =>
      have hg' := (hr₁.enriches.withValue v hv (awaited_eq_ok_iff.1 ha).1).ascending hg
      have hn : n < h.size := by
        rw [size_congr hr₁.enriches.skeleton]
        exact lt_size_of_awaited ha
      -- what comes later had no value when the node got its own
      have hlater : ∀ m ∈ later, m ≠ n ∧ m ∉ done := by
        intro m hm
        have hnone := ((hr₂.mem_computed_iff hg').1 hm).1
        have hmn : m ≠ n := by
          rintro rfl
          rw [value?_withValue_self h m _ hn] at hnone
          cases hnone
        refine ⟨hmn, fun hdone => ?_⟩
        obtain ⟨-, w, hw⟩ := (hr₁.mem_computed_iff hg).1 hdone
        rw [value?_withValue_ne h n _ hmn] at hnone
        rw [hnone] at hw
        cases hw
      have hself : n ∉ done := by
        intro hdone
        obtain ⟨-, w, hw⟩ := (hr₁.mem_computed_iff hg).1 hdone
        rw [(hr₁.still_awaited hg hv ha).1] at hw
        cases hw
      refine List.nodup_append.2 ⟨ih₁ hg, List.nodup_cons.2 ⟨?_, ih₂ hg'⟩, ?_⟩
      · intro hm
        exact (hlater n hm).1 rfl
      · rintro m hdone _ hm rfl
        rcases List.mem_cons.1 hm with rfl | hm
        · exact hself hdone
        · exact (hlater m hm).2 hdone

/-! ## Where an evaluation stops -/

theorem Recalls.stuck (hr : Recalls rules g ns ev) (hg : g.Ascending)
    (he : ev.outcome = .error e) :
    ∃ n path, ns.find? (fun a => (ev.graph.value? a).isNone) = some n ∧
      Stuck rules ev.graph e (n :: path) := by
  induction hr with
  | nil => cases he
  | held hv hr ih =>
      rw [find?_isNone_cons_of_value? (hr.enriches.keeps _ _ hv)]
      exact ih hg he
  | fault hv ha =>
      rw [← Except.error.inj he]
      exact ⟨_, [], find?_isNone_cons_of_missing hv, .fault hv ha⟩
  | operand hv ha hr ih =>
      obtain ⟨hv', ha'⟩ := hr.still_awaited hg hv ha
      obtain ⟨a, path, hfind, hs⟩ := ih hg he
      exact ⟨_, a :: path, find?_isNone_cons_of_missing hv', .above hv' ha' hfind hs⟩
  | rule hv ha hr hres ih =>
      obtain ⟨hv', ha'⟩ := hr.still_awaited hg hv ha
      rw [← Except.error.inj he]
      refine ⟨_, [], find?_isNone_cons_of_missing hv', .rule hv' ha' ?_ hres⟩
      intro a hm
      exact hr.exists_value? rfl hm
  | @computed g h k n ns done later app v outcome hv ha hr₁ _ hr₂ _ ih =>
      have hn : n < h.size := by
        rw [size_congr hr₁.enriches.skeleton]
        exact lt_size_of_awaited ha
      have hself := hr₂.enriches.keeps n v (value?_withValue_self h n (some v) hn)
      rw [find?_isNone_cons_of_value? hself]
      exact ih ((hr₁.enriches.withValue v hv (awaited_eq_ok_iff.1 ha).1).ascending hg) he

theorem application_ne_cyclic :
    (g.application n : Except (Fault E) Application) ≠ .error .cyclic := by
  unfold application
  cases g.nodes[n]? with
  | none => simp
  | some node =>
      obtain ⟨k, -, -, inputs, -⟩ := node
      cases k <;> rcases inputs with _ | ⟨b, _ | ⟨c, _ | _⟩⟩ <;> simp

/-- Where the operands hold values, only a rule can fail. -/
theorem eq_rule_of_result {app : Application}
    (ha : (g.awaited n : Except (Fault E) Application) = .ok app)
    (hheld : ∀ a ∈ app.operands, ∃ v, g.value? a = some v) (hres : g.result rules n = .error e) :
    ∃ c, e = .rule c := by
  obtain ⟨hk, happ⟩ := awaited_eq_ok_iff.1 ha
  cases app with
  | leaf => rcases application_eq_leaf_iff.1 happ with h | h <;> simp [h, Kind.isOperator] at hk
  | unary op a =>
      obtain ⟨x, hx⟩ := hheld a List.mem_cons_self
      rw [result_unary happ, operandValue_eq_ok_iff.2 hx, Except.ok_bind] at hres
      obtain ⟨c, -, hc⟩ := Except.mapError_eq_error_iff.1 hres
      exact ⟨c, hc.symm⟩
  | binary op l r =>
      obtain ⟨x, hx⟩ := hheld l List.mem_cons_self
      obtain ⟨y, hy⟩ := hheld r (List.mem_cons_of_mem l List.mem_cons_self)
      rw [result_binary happ, operandValue_eq_ok_iff.2 hx, operandValue_eq_ok_iff.2 hy,
        Except.ok_bind, Except.ok_bind] at hres
      obtain ⟨c, -, hc⟩ := Except.mapError_eq_error_iff.1 hres
      exact ⟨c, hc.symm⟩

/-- The path of an evaluation that has failed does not end for want of steps. -/
theorem Stuck.ne_cyclic {path : List Nat} (hs : Stuck rules g e path) : e ≠ .cyclic := by
  induction hs with
  | above _ _ _ _ ih => exact ih
  | @fault n hv ha =>
      rintro rfl
      unfold awaited at ha
      cases hk : g.kind? n with
      | none => simp [hk] at ha
      | some k =>
          rw [hk] at ha
          cases k with
          | var | const => cases ha
          | unary | binary => exact application_ne_cyclic ha
  | rule _ ha hheld hres =>
      obtain ⟨c, rfl⟩ := eq_rule_of_result ha hheld hres
      exact nofun

/-! ## The public evaluation -/

/-- The recursion leads to one thing only, which is what the loop leads to. -/
theorem recalls_iff_eq_evaluate (hg : g.Ascending) (hn : n < g.size) :
    Recalls rules g [n] ev ↔ ev = evaluate rules g n := by
  constructor
  · intro hr
    exact (evaluate_eq hg hn hr).symm
  · rintro rfl
    exact recalls_evaluate rules hg hn

theorem run_evalValue_eq_evaluate (rules : Rules V E) (hg : g.Ascending) (hn : n < g.size) :
    ((Action.evalValue rules (.node n)).run g).graph = (evaluate rules g n).graph ∧
      ((Action.evalValue rules (.node n)).run g).events.filterMap Event.computed? =
        (evaluate rules g n).computed := by
  cases hv : g.value? n with
  | some v =>
      have heq : evaluate rules g n = ⟨.ok (), g, []⟩ := evaluate_eq hg hn (.held hv .nil)
      rw [heq, Action.run_evalValue_of_value? g rules hv]
      exact ⟨rfl, rfl⟩
  | none =>
      rw [Action.run_evalValue_node g rules hn hv]
      exact ⟨rfl, computed_map_computed _ _⟩

theorem outcome_evalValue_eq_evaluate (rules : Rules V E) (hg : g.Ascending) (hn : n < g.size) :
    ((evaluate rules g n).outcome = .ok () ∧
        ∃ v, ((Action.evalValue rules (.node n)).run g).outcome = .ok v) ∨
      ∃ e, (evaluate rules g n).outcome = .error e ∧
        ((Action.evalValue rules (.node n)).run g).outcome = .error e := by
  cases hv : g.value? n with
  | some v =>
      have heq : evaluate rules g n = ⟨.ok (), g, []⟩ := evaluate_eq hg hn (.held hv .nil)
      rw [heq, Action.run_evalValue_of_value? g rules hv]
      exact .inl ⟨rfl, v, rfl⟩
  | none =>
      rw [Action.run_evalValue_node g rules hn hv]
      cases ho : (evaluate rules g n).outcome with
      | error e => exact .inr ⟨e, rfl, rfl⟩
      | ok u =>
          obtain ⟨v, hv'⟩ :=
            (recalls_evaluate rules hg hn).exists_value? ho List.mem_cons_self
          rw [hv']
          exact .inl ⟨rfl, v, rfl⟩

end Graph

open DiffGraph.Graph

variable {V E : Type}

/-- On any graph whose edges go to later nodes, an evaluation ends and does what the memoised
recursion does: the recursion leads from the node to one result, and the evaluation leaves the
graph of that result, has computed its nodes in its order, each once, and changes nothing but the
values that these nodes gain. It answers with the value that the node then holds, or it fails like
the recursion, and then the nodes from the failing one up to the node asked for have no value. -/
theorem evalValue_eq_recursion (rules : Rules V E) (g : Graph V) (hg : g.Ascending) (n : Nat)
    (hn : n < g.size) :
    let reply := (Action.evalValue rules (.node n)).run g
    ∃ ev : Evaluation V E, (∀ ev', Recalls rules g [n] ev' ↔ ev' = ev) ∧
      reply.graph = ev.graph ∧ reply.events.filterMap Event.computed? = ev.computed ∧
      ev.computed.Nodup ∧
      (∀ m, m ∈ ev.computed ↔ g.value? m = none ∧ ∃ v, reply.graph.value? m = some v) ∧
      g.Enriches reply.graph ∧
      ((ev.outcome = .ok () ∧
          ∃ v, reply.outcome = .ok v ∧ reply.graph.value? n = some v) ∨
        ∃ e path, ev.outcome = .error e ∧ reply.outcome = .error e ∧ e ≠ .cyclic ∧
          Stuck rules reply.graph e (n :: path) ∧
          ∀ m ∈ n :: path, reply.graph.value? m = none) := by
  intro reply
  have hr := recalls_evaluate rules hg hn
  obtain ⟨hgraph, hcomputed⟩ := run_evalValue_eq_evaluate rules hg hn
  refine ⟨evaluate rules g n, fun ev => recalls_iff_eq_evaluate hg hn, hgraph, hcomputed,
    hr.nodup_computed hg, ?_, ?_, ?_⟩
  · intro m
    rw [hgraph]
    exact hr.mem_computed_iff hg
  · rw [hgraph]
    exact hr.enriches
  · rcases outcome_evalValue_eq_evaluate rules hg hn with ⟨hok, v, hv⟩ | ⟨e, he, hre⟩
    · exact .inl ⟨hok, v, hv, Action.value?_of_evalValue hn hv⟩
    · obtain ⟨m, path, hfind, hs⟩ := hr.stuck hg he
      have hm : m = n := List.mem_singleton.1 (List.mem_of_find?_eq_some hfind)
      subst hm
      rw [← hgraph] at hs
      exact .inr ⟨e, path, he, hre, hs.ne_cyclic, hs, hs.value?_eq_none⟩

/-- A sum of an opposite and of a product that lacks an operand: the opposite is computed and kept,
then the product fails. -/
theorem evalValue_of_broken_product :
    let g : Graph Int := ⟨#[⟨.const, some 3, none, [], [1]⟩, ⟨.unary .neg, none, none, [0], [2, 3]⟩,
      ⟨.binary .mul, none, none, [1], [3]⟩, ⟨.binary .add, none, none, [1, 2], []⟩], [],
      #[(0, 1), (1, 2), (1, 3), (2, 3)]⟩
    let reply := (Action.evalValue Rules.whole (.node 3)).run g
    reply.outcome = .error (.binaryArity 2 1) ∧
      reply.events.filterMap Event.computed? = [1] ∧ reply.graph.value? 1 = some (-3) ∧
      ∃ path, Stuck .whole reply.graph (.binaryArity 2 1) (3 :: path) := by
  intro g reply
  have hg : g.Ascending := ascending_of_lt_size (by decide)
  have hout : reply.outcome = .error (.binaryArity 2 1) := by decide +kernel
  obtain ⟨ev, -, -, -, -, -, -, hend⟩ := evalValue_eq_recursion .whole g hg 3 (by decide)
  refine ⟨hout, by decide +kernel, by decide +kernel, ?_⟩
  rcases hend with ⟨-, v, hv, -⟩ | ⟨e, path, -, he, -, hs, -⟩
  · have hv' := hout.symm.trans hv
    cases hv'
  · have he' := hout.symm.trans he
    rw [Except.error.inj he']
    exact ⟨path, hs⟩

end DiffGraph
