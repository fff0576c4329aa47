import DiffGraph.Engine.Backward
import DiffGraph.Engine.Evaluation
import DiffGraph.Proofs.Graph.WellFormed

/-!
# The memoised recursion

`Recalls` is the natural recursion that forward evaluation stands for: a node that holds a value is
done; any other node is checked, its operands are evaluated from left to right, its rule is
applied, and the value is kept. It is a relation between a graph, a list of nodes to be evaluated
in order, and an `Evaluation`. The first failure ends everything and leaves what was computed
before it. `Enriches` says what an evaluation may change at all.
-/

namespace DiffGraph

namespace Graph

variable {V E : Type}

/-- What has to be applied to give a value to a node that has none. -/
def awaited (g : Graph V) (n : Nat) : Except (Fault E) Application :=
  match g.kind? n with
  | none => .error .subscriptOutOfRange
  | some .var => .error (.valueUninitialized (.node n))
  | some .const => .error (.constantWithoutValue n)
  | some _ => g.application n

/-- The value that a node has by what it applies and by the values that its operands hold. -/
def result (rules : Rules V E) (g : Graph V) (n : Nat) : Except (Fault E) V := do
  match ← g.application n with
  | .leaf => g.operandValue n
  | .unary op a =>
    let x ← g.operandValue a
    (rules.unary op x).mapError .rule
  | .binary op l r =>
    let x ← g.operandValue l
    let y ← g.operandValue r
    (rules.binary op x y).mapError .rule

/-- Evaluating some nodes one after the other, each by the memoised recursion. -/
inductive Recalls (rules : Rules V E) : Graph V → List Nat → Evaluation V E → Prop
  /-- Nothing is left to evaluate. -/
  | nil {g : Graph V} : Recalls rules g [] ⟨.ok (), g, []⟩
  /-- A node that holds a value is done. -/
  | held {g : Graph V} {n : Nat} {ns : List Nat} {v : V} {ev : Evaluation V E} :
      g.value? n = some v → Recalls rules g ns ev → Recalls rules g (n :: ns) ev
  /-- There is nothing to apply. -/
  | fault {g : Graph V} {n : Nat} {ns : List Nat} {e : Fault E} :
      g.value? n = none → g.awaited n = .error e → Recalls rules g (n :: ns) ⟨.error e, g, []⟩
  /-- An operand fails. -/
  | operand {g h : Graph V} {n : Nat} {ns done : List Nat} {app : Application} {e : Fault E} :
      g.value? n = none → (g.awaited n : Except (Fault E) Application) = .ok app →
      Recalls rules g app.operands ⟨.error e, h, done⟩ →
      Recalls rules g (n :: ns) ⟨.error e, h, done⟩
  /-- The rule fails on the values of the operands. -/
  | rule {g h : Graph V} {n : Nat} {ns done : List Nat} {app : Application} {e : Fault E} :
      g.value? n = none → (g.awaited n : Except (Fault E) Application) = .ok app →
      Recalls rules g app.operands ⟨.ok (), h, done⟩ → h.result rules n = .error e →
      Recalls rules g (n :: ns) ⟨.error e, h, done⟩
  /-- The rule gives a value, which is kept. -/
  | computed {g h k : Graph V} {n : Nat} {ns done later : List Nat} {app : Application} {v : V}
      {outcome : Except (Fault E) Unit} :
      g.value? n = none → (g.awaited n : Except (Fault E) Application) = .ok app →
      Recalls rules g app.operands ⟨.ok (), h, done⟩ → h.result rules n = .ok v →
      Recalls rules (h.withValue n (some v)) ns ⟨outcome, k, later⟩ →
      Recalls rules g (n :: ns) ⟨outcome, k, done ++ n :: later⟩

/-- A graph is another one with the values of further operators. -/
structure Enriches (g h : Graph V) : Prop where
  skeleton : h.skeleton = g.skeleton
  deriv? : ∀ n, h.deriv? n = g.deriv? n
  keeps : ∀ n v, g.value? n = some v → h.value? n = some v
  leaves : ∀ n, (g.kind? n).any Kind.isOperator = false → h.value? n = g.value? n

namespace Enriches

variable {g h k : Graph V}

@[refl] theorem refl (g : Graph V) : g.Enriches g :=
  ⟨rfl, fun _ => rfl, fun _ _ h => h, fun _ _ => rfl⟩

@[trans] theorem trans (h₁ : g.Enriches h) (h₂ : h.Enriches k) : g.Enriches k where
  skeleton := h₂.skeleton.trans h₁.skeleton
  deriv? n := (h₂.deriv? n).trans (h₁.deriv? n)
  keeps n v hv := h₂.keeps n v (h₁.keeps n v hv)
  leaves n hn := by
    have hn' : (h.kind? n).any Kind.isOperator = false := by rwa [kind?_congr h₁.skeleton]
    exact (h₂.leaves n hn').trans (h₁.leaves n hn)

theorem withValue (he : g.Enriches h) {n : Nat} (v : V) (hv : g.value? n = none)
    (hk : (g.kind? n).any Kind.isOperator) : g.Enriches (h.withValue n (some v)) where
  skeleton := by rw [skeleton_withValue, he.skeleton]
  deriv? m := by rw [deriv?_withValue, he.deriv?]
  keeps m w hw := by
    have hm : m ≠ n := by
      rintro rfl
      rw [hv] at hw
      cases hw
    rw [value?_withValue_ne h n _ hm, he.keeps m w hw]
  leaves m hm := by
    have hm' : m ≠ n := by
      rintro rfl
      rw [hm] at hk
      cases hk
    rw [value?_withValue_ne h n _ hm', he.leaves m hm]

theorem ascending (he : g.Enriches h) (hg : g.Ascending) : h.Ascending := hg.congr he.skeleton

theorem wellFormed (he : g.Enriches h) (hg : g.WellFormed) : h.WellFormed :=
  hg.of_skeleton he.skeleton fun n hn => he.leaves n (by rw [hn]; rfl)

end Enriches

section Awaited

variable {g : Graph V} {n : Nat} {app : Application}

theorem awaited_eq_ok_iff :
    (g.awaited n : Except (Fault E) Application) = .ok app ↔
      (g.kind? n).any Kind.isOperator ∧
        (g.application n : Except (Fault E) Application) = .ok app := by
  unfold awaited
  cases g.kind? n with
  | none => simp
  | some k => cases k <;> simp [Kind.isOperator]

theorem lt_size_of_awaited (ha : (g.awaited n : Except (Fault E) Application) = .ok app) :
    n < g.size := by
  have hk := (awaited_eq_ok_iff.1 ha).1
  by_contra hn
  rw [(kind?_eq_none_iff g n).2 (Nat.le_of_not_lt hn)] at hk
  cases hk

theorem awaited_congr {h : Graph V} (e : h.skeleton = g.skeleton) (n : Nat) :
    (h.awaited n : Except (Fault E) Application) = g.awaited n := by
  unfold awaited
  rw [kind?_congr e, application_congr e]

end Awaited

namespace Recalls

variable {rules : Rules V E} {g : Graph V} {ns : List Nat} {ev : Evaluation V E}

theorem enriches (hr : Recalls rules g ns ev) : g.Enriches ev.graph := by
  induction hr with
  | nil => exact .refl _
  | held _ _ ih => exact ih
  | fault => exact .refl _
  | operand _ _ _ ih => exact ih
  | rule _ _ _ _ ih => exact ih
  | computed hv ha _ _ _ ih₁ ih₂ =>
      exact (ih₁.withValue _ hv (awaited_eq_ok_iff.1 ha).1).trans ih₂

/-- Nodes after all those that are to be evaluated are left alone. -/
theorem value?_eq (hr : Recalls rules g ns ev) (hg : g.Ascending) {b : Nat}
    (hb : ∀ n ∈ ns, n < b) {m : Nat} (hm : b ≤ m) : ev.graph.value? m = g.value? m := by
  induction hr generalizing b with
  | nil => rfl
  | held _ _ ih => exact ih hg (fun n hn => hb n (List.mem_cons_of_mem _ hn)) hm
  | fault => rfl
  | operand _ ha _ ih =>
      have hn := hb _ List.mem_cons_self
      exact ih hg (fun a h => hg.operand_lt (awaited_eq_ok_iff.1 ha).2 h) (by omega)
  | rule _ ha _ _ ih =>
      have hn := hb _ List.mem_cons_self
      exact ih hg (fun a h => hg.operand_lt (awaited_eq_ok_iff.1 ha).2 h) (by omega)
  | @computed g h k n ns done later app v outcome hv ha hr _ _ ih₁ ih₂ =>
      have hn := hb _ List.mem_cons_self
      have he := (hr.enriches.withValue v hv (awaited_eq_ok_iff.1 ha).1)
      have h₁ := ih₁ hg (fun a h => hg.operand_lt (awaited_eq_ok_iff.1 ha).2 h) (by omega : n ≤ m)
      have h₂ := ih₂ (he.ascending hg) (fun n hn => hb n (List.mem_cons_of_mem _ hn)) hm
      rw [h₂, value?_withValue_ne h n _ (by omega), h₁]

/-- The evaluation of its operands, failed or not, leaves a node as it is. -/
theorem still_awaited {n : Nat} {app : Application} (hr : Recalls rules g app.operands ev)
    (hg : g.Ascending) (hv : g.value? n = none)
    (ha : (g.awaited n : Except (Fault E) Application) = .ok app) :
    ev.graph.value? n = none ∧ (ev.graph.awaited n : Except (Fault E) Application) = .ok app := by
  constructor
  · rw [← hv]
    exact hr.value?_eq hg (fun a => hg.operand_lt (awaited_eq_ok_iff.1 ha).2) (Nat.le_refl n)
  · rw [← ha]
    exact awaited_congr hr.enriches.skeleton n

theorem exists_value? (hr : Recalls rules g ns ev) (ho : ev.outcome = .ok ()) {n : Nat}
    (hn : n ∈ ns) : ∃ v, ev.graph.value? n = some v := by
  induction hr with
  | nil => cases hn
  | @held g m ns v ev hv hr ih =>
      rcases List.mem_cons.1 hn with rfl | hn
      · exact ⟨v, hr.enriches.keeps _ v hv⟩
      · exact ih ho hn
  | fault => cases ho
  | operand => cases ho
  | rule => cases ho
  | @computed g h k m ns done later app v outcome hv ha hr₁ _ hr₂ ih₁ ih₂ =>
      rcases List.mem_cons.1 hn with rfl | hn
      · have hsize : n < h.size := by
          rw [size_congr hr₁.enriches.skeleton]
          exact lt_size_of_awaited ha
        exact ⟨v, hr₂.enriches.keeps _ v (value?_withValue_self h _ _ hsize)⟩
      · exact ih₂ ho hn

end Recalls

theorem exists_recalls (rules : Rules V E) (b : Nat) (ns : List Nat) (g : Graph V)
    (hg : g.Ascending) (hb : ∀ n ∈ ns, n < b) : ∃ ev, Recalls rules g ns ev := by
  induction b using Nat.strongRecOn generalizing ns g with
  | _ b ihb =>
      induction ns generalizing g with
      | nil => exact ⟨_, .nil⟩
      | cons n ns ih =>
          have hns : ∀ m ∈ ns, m < b := fun m hm => hb m (List.mem_cons_of_mem n hm)
          cases hv : g.value? n with
          | some v =>
              obtain ⟨ev, hev⟩ := ih g hg hns
              exact ⟨ev, .held hv hev⟩
          | none =>
              cases ha : (g.awaited n : Except (Fault E) Application) with
              | error e => exact ⟨_, .fault hv ha⟩
              | ok app =>
                  have happ := awaited_eq_ok_iff.1 ha
                  obtain ⟨⟨outcome, h, done⟩, hev⟩ := ihb n (hb n List.mem_cons_self) app.operands
                    g hg fun a => hg.operand_lt happ.2
                  cases outcome with
                  | error e => exact ⟨_, .operand hv ha hev⟩
                  | ok u =>
                      cases hres : h.result rules n with
                      | error e => exact ⟨_, .rule hv ha hev hres⟩
                      | ok v =>
                          have he := hev.enriches.withValue v hv happ.1
                          obtain ⟨ev, hev'⟩ := ih _ (he.ascending hg) hns
                          exact ⟨_, .computed hv ha hev hres hev'⟩

end Graph

end DiffGraph
