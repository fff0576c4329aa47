import DiffGraph.Proofs.Engine.Recall
import Mathlib.Data.List.Basic

/-!
# Forward evaluation is the memoised recursion

The loop over an explicit stack gives what the recursion `Recalls` gives, and its bound on the
number of steps is never met where all edges go to later nodes. The proof follows the recursion:
`Clears` says that the loop works off the top of the stack in a number of steps that does not
depend on what is below. The steps are paid for by the nodes that gain a value, three for each.
-/

namespace DiffGraph

open DiffGraph.Graph

variable {V E : Type} {rules : Rules V E} {g h : Graph V} {n : Nat} {app : Application}

/-! ## Looking at a node -/

theorem Graph.examine_held {v : V} (hv : g.value? n = some v) :
    g.examine rules n = .ok .known := by
  unfold value? at hv
  unfold examine
  cases hn : g.nodes[n]? with
  | none => simp [hn] at hv
  | some node =>
      have hs : node.value = some v := by simpa [hn] using hv
      simp [hs]

/-- At a node without a value there is something to apply, or there is a fault. -/
theorem Graph.examine_awaited (hv : g.value? n = none) :
    g.examine rules n = g.awaited n >>= g.apply rules := by
  unfold value? at hv
  unfold examine awaited kind?
  cases hn : g.nodes[n]? with
  | none => rfl
  | some node =>
      have hs : node.value = none := by
        rw [hn] at hv
        exact hv
      cases hk : node.kind <;> simp [hs, hk, bind, Except.bind]

/-- The operands that have to be computed before an application. -/
def Graph.pending (g : Graph V) (app : Application) : List Nat :=
  app.operands.filter fun a => (g.value? a).isNone

theorem Graph.length_pending_le (g : Graph V) (app : Application) :
    (g.pending app).length ≤ 2 := by
  have h : (g.pending app).length ≤ app.operands.length := List.length_filter_le _ _
  have h₂ : app.operands.length ≤ 2 := by cases app <;> simp [Application.operands]
  exact Nat.le_trans h h₂

theorem Graph.examine_pending (hv : g.value? n = none)
    (ha : (g.awaited n : Except (Fault E) Application) = .ok app) (hp : g.pending app ≠ []) :
    g.examine rules n = .ok (.waiting (g.pending app)) := by
  rw [examine_awaited hv, ha]
  cases app with
  | leaf => exact (hp rfl).elim
  | unary op a =>
      cases hx : g.value? a with
      | some x => simp [pending, Application.operands, hx] at hp
      | none => simp [bind, Except.bind, apply, pending, Application.operands, hx]
  | binary op l r =>
      cases hx : g.value? l with
      | none => simp [bind, Except.bind, apply, pending, Application.operands, hx]
      | some x =>
          cases hy : g.value? r with
          | some y => simp [pending, Application.operands, hx, hy] at hp
          | none => simp [bind, Except.bind, apply, pending, Application.operands, hx, hy]

theorem Graph.examine_ready (hv : g.value? n = none)
    (ha : (g.awaited n : Except (Fault E) Application) = .ok app)
    (hp : ∀ a ∈ app.operands, ∃ v, g.value? a = some v) :
    g.examine rules n = (g.result rules n).map .value := by
  have happ := awaited_eq_ok_iff.1 ha
  rw [examine_awaited hv, ha, result, happ.2]
  cases app with
  | leaf =>
      have hk := application_eq_leaf_iff.1 happ.2
      rcases hk with hk | hk <;> simp [hk, Kind.isOperator] at happ
  | unary op a =>
      obtain ⟨x, hx⟩ := hp a (by simp [Application.operands])
      simp [bind, Except.bind, apply, operandValue, hx]
  | binary op l r =>
      obtain ⟨x, hx⟩ := hp l (by simp [Application.operands])
      obtain ⟨y, hy⟩ := hp r (by simp [Application.operands])
      simp [bind, Except.bind, apply, operandValue, hx, hy]

/-! ## Nodes without a value -/

/-- The number of nodes below a bound that hold no value. -/
def Graph.missing (g : Graph V) (b : Nat) : Nat :=
  (List.range b).countP fun n => (g.value? n).isNone

namespace Graph

theorem missing_le (g : Graph V) (b : Nat) : g.missing b ≤ b := by
  have h : g.missing b ≤ (List.range b).length := List.countP_le_length
  rwa [List.length_range] at h

theorem missing_succ (g : Graph V) (b : Nat) :
    g.missing (b + 1) = g.missing b + if (g.value? b).isNone then 1 else 0 := by
  rw [missing, List.range_succ, List.countP_append, List.countP_singleton, missing]

theorem missing_lt {b : Nat} (hn : n < b) (hv : g.value? n = none) :
    g.missing n < g.missing b := by
  induction b with
  | zero => cases hn
  | succ b ih =>
      rw [missing_succ]
      rcases Nat.lt_succ_iff_lt_or_eq.1 hn with hn | rfl
      · exact Nat.lt_add_right _ (ih hn)
      · simp [hv]

theorem missing_congr {b : Nat} (e : ∀ m < b, h.value? m = g.value? m) :
    h.missing b = g.missing b := by
  refine List.countP_congr fun m hm => ?_
  rw [e m (List.mem_range.1 hm)]

/-- A node that gains a value is no longer missing. -/
theorem missing_withValue {b : Nat} {v : V} (hn : n < b) (hs : n < g.size)
    (hv : g.value? n = none) : (g.withValue n (some v)).missing b + 1 = g.missing b := by
  induction b with
  | zero => cases hn
  | succ b ih =>
      rw [missing_succ, missing_succ]
      rcases Nat.lt_succ_iff_lt_or_eq.1 hn with hn | rfl
      · rw [value?_withValue_ne g n _ (Nat.ne_of_gt hn), ← ih hn]
        omega
      · have e : (g.withValue n (some v)).missing n = g.missing n :=
          missing_congr fun m hm => value?_withValue_ne g n _ (Nat.ne_of_lt hm)
        rw [e, value?_withValue_self g n _ hs, hv]
        rfl

end Graph

/-! ## Working off the top of the stack -/

/-- What comes after an evaluation of the top of the stack. -/
def Evaluation.resume (rules : Rules V E) (ev : Evaluation V E) (steps : Nat) (stack : List Nat)
    (done : List Nat) : Evaluation V E :=
  match ev.outcome with
  | .ok _ => evaluateStack rules steps stack ev.graph (ev.computed.reverse ++ done)
  | .error e => ⟨.error e, ev.graph, done.reverse ++ ev.computed⟩

/-- Some nodes on top of any stack are worked off in a number of steps, with what comes of it. -/
def Clears (rules : Rules V E) (k : Nat) (g : Graph V) (ns : List Nat) (ev : Evaluation V E) :
    Prop :=
  ∀ steps stack done,
    evaluateStack rules (k + steps) (ns ++ stack) g done = ev.resume rules steps stack done

/-- The steps that are left over for the nodes still missing, where there was no failure. -/
def Evaluation.left (ev : Evaluation V E) (b : Nat) : Nat :=
  match ev.outcome with
  | .ok _ => 3 * ev.graph.missing b
  | .error _ => 0

/-- Nothing is done where all nodes hold a value. -/
theorem Graph.Recalls.eq_of_held {ns : List Nat} {ev : Evaluation V E}
    (hr : Recalls rules g ns ev) (hh : ∀ n ∈ ns, ∃ v, g.value? n = some v) :
    ev = ⟨.ok (), g, []⟩ := by
  induction hr with
  | nil => rfl
  | held _ _ ih => exact ih fun n hn => hh n (List.mem_cons_of_mem _ hn)
  | fault hv | operand hv | rule hv | computed hv =>
      obtain ⟨v, hv'⟩ := hh _ List.mem_cons_self
      rw [hv] at hv'
      cases hv'

/-- A node that waits for its operands is met again when they have been worked off. -/
theorem Clears.wait {k : Nat} {ev : Evaluation V E} (hv : g.value? n = none)
    (ha : (g.awaited n : Except (Fault E) Application) = .ok app)
    (hr : Recalls rules g app.operands ev) (hc : Clears rules k g (g.pending app) ev) :
    ∃ j ≤ k + 1, ∀ steps stack done, evaluateStack rules (j + steps) (n :: stack) g done =
      ev.resume rules steps (n :: stack) done := by
  by_cases hp : g.pending app = []
  · have hh : ∀ a ∈ app.operands, ∃ v, g.value? a = some v := by
      intro a hm
      have := List.filter_eq_nil_iff.1 hp a hm
      rwa [Option.isNone_iff_eq_none, ← ne_eq, Option.ne_none_iff_exists'] at this
    rw [hr.eq_of_held hh]
    refine ⟨0, Nat.zero_le _, fun steps stack done => ?_⟩
    rw [Nat.zero_add]
    rfl
  · refine ⟨k + 1, Nat.le_refl _, fun steps stack done => ?_⟩
    have hx : g.examine rules n = .ok (.waiting (g.pending app)) := examine_pending hv ha hp
    rw [Nat.add_right_comm, evaluateStack, hx]
    exact hc steps (n :: stack) done

/-- When its operands have been worked off, a node still has no value, and its rule is applied. -/
theorem Graph.Recalls.ready {done : List Nat} (hr : Recalls rules g app.operands ⟨.ok (), h, done⟩)
    (hg : g.Ascending) (hv : g.value? n = none)
    (ha : (g.awaited n : Except (Fault E) Application) = .ok app) :
    h.value? n = none ∧ h.examine rules n = (h.result rules n).map .value := by
  obtain ⟨hv', ha'⟩ := hr.still_awaited hg hv ha
  exact ⟨hv', examine_ready hv' ha' fun a hm => hr.exists_value? rfl hm⟩

/-- A node without a value is not left out where only nodes with a value may be. -/
theorem filter_cons_of_missing {ns : List Nat} {p : Nat → Bool} (hv : g.value? n = none)
    (hp : ∀ m ∈ n :: ns, p m = false → ∃ v, g.value? m = some v) :
    (n :: ns).filter p = n :: ns.filter p := by
  refine List.filter_cons_of_pos ?_
  by_contra hn
  obtain ⟨v, hv'⟩ := hp n List.mem_cons_self (by simpa using hn)
  rw [hv] at hv'
  cases hv'

theorem Graph.exists_value?_of_isNone_eq_false (h : (g.value? n).isNone = false) :
    ∃ v, g.value? n = some v := by
  rwa [Option.isNone_eq_false_iff, Option.isSome_iff_exists] at h

/-- The loop does what the recursion does. Nodes that hold a value need not be on the stack. -/
theorem Graph.Recalls.clears {ns : List Nat} {ev : Evaluation V E} (hr : Recalls rules g ns ev)
    (hg : g.Ascending) {b : Nat} (hb : ∀ n ∈ ns, n < b) (p : Nat → Bool)
    (hp : ∀ n ∈ ns, p n = false → ∃ v, g.value? n = some v) :
    ∃ k, k + ev.left b ≤ 3 * g.missing b + (ns.filter p).length ∧
      Clears rules k g (ns.filter p) ev := by
  induction hr generalizing b p with
  | nil => exact ⟨0, by simp [Evaluation.left], fun steps stack done => by simp [Evaluation.resume]⟩
  | @held g n ns v ev hv hr ih =>
      obtain ⟨k, hk, hc⟩ := ih hg (fun m hm => hb m (List.mem_cons_of_mem n hm)) p
        (fun m hm => hp m (List.mem_cons_of_mem n hm))
      by_cases hn : p n
      · rw [List.filter_cons_of_pos hn]
        refine ⟨k + 1, ?_, fun steps stack done => ?_⟩
        · rw [List.length_cons]
          omega
        · rw [Nat.add_right_comm, List.cons_append, evaluateStack, examine_held hv]
          exact hc steps stack done
      · rw [List.filter_cons_of_neg hn]
        exact ⟨k, hk, hc⟩
  | @fault g n ns e hv ha =>
      rw [filter_cons_of_missing hv hp]
      refine ⟨1, ?_, fun steps stack done => ?_⟩
      · simp only [Evaluation.left, List.length_cons]
        omega
      · rw [Nat.add_comm, List.cons_append, evaluateStack, examine_awaited hv, ha]
        simp [bind, Except.bind, Evaluation.resume]
  | @operand g h n ns done app e hv ha hr ih =>
      have hn := hb n List.mem_cons_self
      obtain ⟨k, hk, hc⟩ := ih hg (fun a => hg.operand_lt (awaited_eq_ok_iff.1 ha).2)
        (fun a => (g.value? a).isNone) (fun a _ => exists_value?_of_isNone_eq_false)
      obtain ⟨j, hj, hw⟩ := Clears.wait hv ha hr hc
      rw [filter_cons_of_missing hv hp]
      refine ⟨j, ?_, fun steps stack done => ?_⟩
      · have hlen := length_pending_le g app
        have hlt := missing_lt hn hv
        simp only [pending, Evaluation.left, List.length_cons] at hk hlen ⊢
        omega
      · rw [List.cons_append, hw]
        rfl
  | @rule g h n ns done app e hv ha hr hres ih =>
      have hn := hb n List.mem_cons_self
      obtain ⟨k, hk, hc⟩ := ih hg (fun a => hg.operand_lt (awaited_eq_ok_iff.1 ha).2)
        (fun a => (g.value? a).isNone) (fun a _ => exists_value?_of_isNone_eq_false)
      obtain ⟨j, hj, hw⟩ := Clears.wait hv ha hr hc
      rw [filter_cons_of_missing hv hp]
      refine ⟨j + 1, ?_, fun steps stack before => ?_⟩
      · have hlen := length_pending_le g app
        have hlt := missing_lt hn hv
        simp only [pending, Evaluation.left, List.length_cons] at hk hlen ⊢
        omega
      · rw [List.cons_append, Nat.add_assoc, hw, Nat.add_comm 1]
        simp [Evaluation.resume, evaluateStack, (hr.ready hg hv ha).2, hres, Except.map]
  | @computed g h k n ns done later app v outcome hv ha hr hres hr₂ ih₁ ih₂ =>
      have hn := hb n List.mem_cons_self
      have happ := awaited_eq_ok_iff.1 ha
      obtain ⟨k₁, hk₁, hc₁⟩ := ih₁ hg
        (fun a hm => Nat.lt_trans (hg.operand_lt happ.2 hm) hn)
        (fun a => (g.value? a).isNone) (fun a _ => exists_value?_of_isNone_eq_false)
      obtain ⟨j, hj, hw⟩ := Clears.wait hv ha hr hc₁
      have he := hr.enriches.withValue v hv happ.1
      obtain ⟨k₂, hk₂, hc₂⟩ := ih₂ (he.ascending hg)
        (fun m hm => hb m (List.mem_cons_of_mem n hm)) p fun m hm hpm => by
          obtain ⟨w, hw⟩ := hp m (List.mem_cons_of_mem n hm) hpm
          exact ⟨w, he.keeps m w hw⟩
      have hready := hr.ready hg hv ha
      rw [filter_cons_of_missing hv hp]
      refine ⟨j + (k₂ + 1), ?_, fun steps stack before => ?_⟩
      · have hlen := length_pending_le g app
        have hsize : n < h.size := by
          rw [size_congr hr.enriches.skeleton]
          exact lt_size_of_awaited ha
        have hgain := missing_withValue (v := v) hn hsize hready.1
        simp only [pending, Evaluation.left, List.length_cons] at hk₁ hk₂ hlen ⊢
        omega
      · rw [List.cons_append, Nat.add_assoc, hw, Nat.add_right_comm]
        simp only [Evaluation.resume, evaluateStack, hready.2, hres, Except.map]
        rw [hc₂]
        cases outcome <;> simp [Evaluation.resume]

/-- Evaluating a node is the memoised recursion from that node. -/
theorem evaluate_eq {ev : Evaluation V E} (hg : g.Ascending) (hn : n < g.size)
    (hr : Recalls rules g [n] ev) : evaluate rules g n = ev := by
  have hb : ∀ m ∈ [n], m < g.size := fun m hm => by rwa [List.mem_singleton.1 hm]
  obtain ⟨k, hk, hc⟩ := hr.clears hg hb (fun _ => true) (fun _ _ h => by cases h)
  have hm := missing_le g g.size
  have hsteps : evaluationSteps g = k + (evaluationSteps g - k) := by
    simp only [List.filter_true, List.length_singleton] at hk
    rw [evaluationSteps]
    omega
  have h := hc (evaluationSteps g - k) [] []
  rw [← hsteps, List.filter_true] at h
  refine Eq.trans h ?_
  obtain ⟨outcome | outcome, graph, computed⟩ := ev <;> simp [Evaluation.resume, evaluateStack]

/-- Where all edges go to later nodes, an evaluation of a node is a run of the recursion. -/
theorem recalls_evaluate (rules : Rules V E) (hg : g.Ascending) (hn : n < g.size) :
    Recalls rules g [n] (evaluate rules g n) := by
  have hb : ∀ m ∈ [n], m < g.size := fun m hm => by rwa [List.mem_singleton.1 hm]
  obtain ⟨ev, hr⟩ := exists_recalls rules g.size [n] g hg hb
  rwa [evaluate_eq hg hn hr]

end DiffGraph
