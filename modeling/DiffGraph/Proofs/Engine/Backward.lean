import DiffGraph.Engine.Backward
import DiffGraph.Proofs.Graph.WellFormed
import DiffGraph.Proofs.Outcomes
import Mathlib.Algebra.GroupWithZero.Nat

/-!
# The visits of a reverse pass

`Visits` lists, by recursion along the operands, what a reverse pass from a node visits: each
path of operands with the node at its end and the gradient that comes in there. The loop over an
explicit stack adds these gradients up in this order, whatever else waits on the stack, and it
succeeds if and only if the visits exist and add up.
-/

namespace DiffGraph

open DiffGraph.Graph

/-- A visit of a reverse pass. -/
structure Visit (V : Type) where
  /-- The positions of the operands that lead from the output to the node. -/
  path : List Nat
  node : Nat
  /-- The gradient that comes in. -/
  gradient : V

/-- A visit seen from a node that has the starting point as the operand at a position. -/
def Visit.below {V : Type} (i : Nat) (v : Visit V) : Visit V := { v with path := i :: v.path }

variable {V E : Type} {rules : Rules V E} {g h : Graph V} {n : Nat} {d : V}

namespace Graph

/-- The visits of a reverse pass from a node with an incoming gradient. -/
inductive Visits (rules : Rules V E) (g : Graph V) : Nat → V → List (Visit V) → Prop
  /-- A leaf has no operands. -/
  | leaf {n : Nat} {d : V} :
      (g.application n : Except (Fault E) Application) = .ok .leaf →
      Visits rules g n d [⟨[], n, d⟩]
  /-- The operand is visited with its gradient. -/
  | unary {n a : Nat} {op : Unary} {d x da : V} {vs : List (Visit V)} :
      (g.application n : Except (Fault E) Application) = .ok (.unary op a) →
      g.value? a = some x → rules.unaryPull op x d = .ok da → Visits rules g a da vs →
      Visits rules g n d (⟨[], n, d⟩ :: vs.map (Visit.below 0))
  /-- The left operand is visited first, then the right one. -/
  | binary {n l r : Nat} {op : Binary} {d x y dl dr : V} {vs ws : List (Visit V)} :
      (g.application n : Except (Fault E) Application) = .ok (.binary op l r) →
      g.value? l = some x → g.value? r = some y → rules.binaryPull op x y d = .ok (dl, dr) →
      Visits rules g l dl vs → Visits rules g r dr ws →
      Visits rules g n d (⟨[], n, d⟩ :: (vs.map (Visit.below 0) ++ ws.map (Visit.below 1)))

/-- The graph with the gradients of some visits added, one after the other. -/
def accumulate (rules : Rules V E) (g : Graph V) : List (Visit V) → Except (Fault E) (Graph V)
  | [] => .ok g
  | v :: vs => do
    let total ← g.accumulated rules v.node v.gradient
    (g.withDeriv v.node (some total)).accumulate rules vs

/-! ## All but the gradients -/

@[simp] theorem withoutDerivs_withDeriv (g : Graph V) (n : Nat) (d : Option V) :
    (g.withDeriv n d).withoutDerivs = g.withoutDerivs := by
  unfold withoutDerivs withDeriv modify
  congr 1
  apply Array.ext_getElem?
  intro m
  simp only [Array.getElem?_map, Array.getElem?_modify]
  split
  · rw [Option.map_map]
    rfl
  · rfl

@[simp] theorem withoutDerivs_withoutDerivs (g : Graph V) :
    g.withoutDerivs.withoutDerivs = g.withoutDerivs := by
  simp [withoutDerivs, Function.comp_def]

section Congr

variable (e : h.withoutDerivs = g.withoutDerivs)
include e

theorem skeleton_congr : h.skeleton = g.skeleton := by
  rw [← skeleton_withoutDerivs h, e, skeleton_withoutDerivs]

theorem value?_congr (n : Nat) : h.value? n = g.value? n := by
  rw [← value?_withoutDerivs h, e, value?_withoutDerivs]

theorem contributions_congr (n : Nat) (d : V) :
    h.contributions rules n d = g.contributions rules n d := by
  unfold contributions operandValue
  simp only [application_congr (skeleton_congr e), value?_congr e]

end Congr

/-! ## Contributions -/

theorem operandValue_eq_ok_iff {v : V} :
    (g.operandValue n : Except (Fault E) V) = .ok v ↔ g.value? n = some v := by
  unfold operandValue
  cases g.value? n <;> simp

theorem contributions_eq_ok_iff {parts : List (Nat × V)} :
    g.contributions rules n d = .ok parts ↔
      ((g.application n : Except (Fault E) Application) = .ok .leaf ∧ parts = []) ∨
      (∃ op a x da, (g.application n : Except (Fault E) Application) = .ok (.unary op a) ∧
        g.value? a = some x ∧ rules.unaryPull op x d = .ok da ∧ parts = [(a, da)]) ∨
      ∃ op l r x y dl dr,
        (g.application n : Except (Fault E) Application) = .ok (.binary op l r) ∧
        g.value? l = some x ∧ g.value? r = some y ∧
        rules.binaryPull op x y d = .ok (dl, dr) ∧ parts = [(l, dl), (r, dr)] := by
  constructor
  · intro hc
    obtain ⟨app, ha, hc⟩ := Except.bind_eq_ok_iff.1 hc
    cases app with
    | leaf => exact .inl ⟨ha, (Except.ok.inj hc).symm⟩
    | unary op a =>
        obtain ⟨x, hx, hc⟩ := Except.bind_eq_ok_iff.1 hc
        obtain ⟨da, hd, hc⟩ := Except.bind_eq_ok_iff.1 hc
        exact .inr (.inl ⟨op, a, x, da, ha, operandValue_eq_ok_iff.1 hx,
          Except.mapError_eq_ok_iff.1 hd, (Except.ok.inj hc).symm⟩)
    | binary op l r =>
        obtain ⟨x, hx, hc⟩ := Except.bind_eq_ok_iff.1 hc
        obtain ⟨y, hy, hc⟩ := Except.bind_eq_ok_iff.1 hc
        obtain ⟨ds, hd, hc⟩ := Except.bind_eq_ok_iff.1 hc
        exact .inr (.inr ⟨op, l, r, x, y, ds.1, ds.2, ha, operandValue_eq_ok_iff.1 hx,
          operandValue_eq_ok_iff.1 hy, Except.mapError_eq_ok_iff.1 hd, (Except.ok.inj hc).symm⟩)
  · unfold contributions
    rintro (⟨ha, rfl⟩ | ⟨op, a, x, da, ha, hx, hd, rfl⟩ |
      ⟨op, l, r, x, y, dl, dr, ha, hx, hy, hd, rfl⟩)
    · simp [ha, pure, Except.pure]
    · simp [ha, operandValue, hx, hd, pure, Except.pure]
    · simp [ha, operandValue, hx, hy, hd, pure, Except.pure]

theorem map_fst_contributions (hg : g.WellFormed) {parts : List (Nat × V)}
    (hp : g.contributions rules n d = .ok parts) : parts.map Prod.fst = g.inputsOf n := by
  rcases contributions_eq_ok_iff.1 hp with ⟨ha, rfl⟩ | ⟨op, a, x, da, ha, -, -, rfl⟩ |
    ⟨op, l, r, x, y, dl, dr, ha, -, -, -, rfl⟩
  · exact (hg.inputsOf_of_leaf ha).symm
  · exact (application_eq_unary_iff.1 ha).2.symm
  · exact (application_eq_binary_iff.1 ha).2.symm

/-- The number of visits that a stack can lead to at most. -/
def room (stack : List (Nat × V)) : Nat := (stack.map fun p => 2 ^ (p.1 + 1) - 1).sum

theorem room_cons (p : Nat × V) (stack : List (Nat × V)) :
    room (p :: stack) = 2 ^ (p.1 + 1) - 1 + room stack := rfl

theorem room_append (parts stack : List (Nat × V)) :
    room (parts ++ stack) = room parts + room stack := by
  simp [room]

/-- The operands of a node need less room than the node. -/
theorem room_contributions (hg : g.WellFormed) {parts : List (Nat × V)}
    (hp : g.contributions rules n d = .ok parts) : room parts + 1 ≤ 2 ^ (n + 1) - 1 := by
  have hn := Nat.two_pow_pos n
  have hpow : 2 ^ (n + 1) = 2 ^ n * 2 := Nat.pow_succ 2 n
  rcases contributions_eq_ok_iff.1 hp with ⟨-, rfl⟩ | ⟨op, a, x, da, ha, -, -, rfl⟩ |
    ⟨op, l, r, x, y, dl, dr, ha, -, -, -, rfl⟩
  · simp only [room, List.map_nil, List.sum_nil]
    omega
  · have hlt := hg.operand_lt ha (a := a) (by simp [Application.operands])
    have hle : 2 ^ (a + 1) ≤ 2 ^ n := Nat.pow_le_pow_right (by omega) hlt
    simp only [room, List.map_cons, List.map_nil, List.sum_cons, List.sum_nil]
    omega
  · have hl := hg.operand_lt ha (a := l) (by simp [Application.operands])
    have hr := hg.operand_lt ha (a := r) (by simp [Application.operands])
    have hle₁ : 2 ^ (l + 1) ≤ 2 ^ n := Nat.pow_le_pow_right (by omega) hl
    have hle₂ : 2 ^ (r + 1) ≤ 2 ^ n := Nat.pow_le_pow_right (by omega) hr
    simp only [room, List.map_cons, List.map_nil, List.sum_cons, List.sum_nil]
    omega

/-! ## Adding up -/

theorem accumulate_cons_eq_ok_iff {v : Visit V} {vs : List (Visit V)} :
    g.accumulate rules (v :: vs) = .ok h ↔
      ∃ total, g.accumulated rules v.node v.gradient = .ok total ∧
        (g.withDeriv v.node (some total)).accumulate rules vs = .ok h :=
  Except.bind_eq_ok_iff

theorem accumulate_append (vs ws : List (Visit V)) (g : Graph V) :
    g.accumulate rules (vs ++ ws) = g.accumulate rules vs >>= (·.accumulate rules ws) := by
  induction vs generalizing g with
  | nil => rfl
  | cons v vs ih =>
      simp only [List.cons_append, accumulate, ih, bind_assoc]

@[simp] theorem accumulate_map_below (i : Nat) (vs : List (Visit V)) (g : Graph V) :
    g.accumulate rules (vs.map (Visit.below i)) = g.accumulate rules vs := by
  induction vs generalizing g with
  | nil => rfl
  | cons v vs ih => simp only [List.map_cons, accumulate, ih, Visit.below]

theorem withoutDerivs_accumulate {vs : List (Visit V)} (ha : g.accumulate rules vs = .ok h) :
    h.withoutDerivs = g.withoutDerivs := by
  induction vs generalizing g with
  | nil =>
      cases ha
      rfl
  | cons v vs ih =>
      obtain ⟨total, -, ha⟩ := accumulate_cons_eq_ok_iff.1 ha
      rw [ih ha, withoutDerivs_withDeriv]

end Graph

/-! ## The loop -/

/-- A reverse pass changes nothing but gradients, even where it fails. -/
theorem withoutDerivs_sweepStack (steps : Nat) (stack : List (Nat × V)) (g : Graph V)
    (done : List Nat) :
    (sweepStack rules steps stack g done).graph.withoutDerivs = g.withoutDerivs := by
  fun_induction sweepStack rules steps stack g done with
  | case1 | case2 | case3 => rfl
  | case4 => exact withoutDerivs_withDeriv _ _ _
  | case5 steps n d stack g done total hd g' parts hc ih =>
      rw [ih]
      exact withoutDerivs_withDeriv _ _ _

theorem withoutDerivs_sweep (g : Graph V) (n : Nat) (v : V) :
    (sweep rules g n v).graph.withoutDerivs = g.withoutDerivs := by
  rw [sweep, withoutDerivs_sweepStack, withoutDerivs_withoutDerivs]

theorem sweepStack_cons {total : V} {parts : List (Nat × V)}
    (hd : g.accumulated rules n d = .ok total) (hc : g.contributions rules n d = .ok parts)
    (steps : Nat) (stack : List (Nat × V)) (done : List Nat) :
    sweepStack rules (steps + 1) ((n, d) :: stack) g done =
      sweepStack rules steps (parts ++ stack) (g.withDeriv n (some total)) (n :: done) := by
  have hc' : (g.withDeriv n (some total)).contributions rules n d = .ok parts := by
    rw [contributions_congr (withoutDerivs_withDeriv _ _ _), hc]
  simp only [sweepStack, hd, hc']

/-- The loop makes the visits from the node on top of the stack, and then goes on below. -/
theorem Graph.Visits.sweepStack_eq {vs : List (Visit V)} (hv : Visits rules g n d vs)
    {g₁ h : Graph V} (e : g₁.withoutDerivs = g.withoutDerivs)
    (ha : g₁.accumulate rules vs = .ok h) (steps : Nat) (stack : List (Nat × V))
    (done : List Nat) :
    sweepStack rules (vs.length + steps) ((n, d) :: stack) g₁ done =
      sweepStack rules steps stack h ((vs.map Visit.node).reverse ++ done) := by
  induction hv generalizing g₁ h steps stack done with
  | @leaf n d hl =>
      obtain ⟨total, hd, ha⟩ := accumulate_cons_eq_ok_iff.1 ha
      have hc : g₁.contributions rules n d = .ok [] := by
        rw [contributions_congr e]
        exact contributions_eq_ok_iff.2 (.inl ⟨hl, rfl⟩)
      cases ha
      rw [List.length_singleton, Nat.add_comm, sweepStack_cons hd hc]
      rfl
  | @unary n a op d x da vs hl hx hp hv ih =>
      obtain ⟨total, hd, ha⟩ := accumulate_cons_eq_ok_iff.1 ha
      have hc : g₁.contributions rules n d = .ok [(a, da)] := by
        rw [contributions_congr e]
        exact contributions_eq_ok_iff.2 (.inr (.inl ⟨op, a, x, da, hl, hx, hp, rfl⟩))
      rw [accumulate_map_below] at ha
      rw [List.length_cons, List.length_map, Nat.add_right_comm, sweepStack_cons hd hc,
        List.singleton_append, ih ((withoutDerivs_withDeriv _ _ _).trans e) ha]
      simp [Visit.below, Function.comp_def]
  | @binary n l r op d x y dl dr vs ws hl hx hy hp hv hw ih₁ ih₂ =>
      obtain ⟨total, hd, ha⟩ := accumulate_cons_eq_ok_iff.1 ha
      have hc : g₁.contributions rules n d = .ok [(l, dl), (r, dr)] := by
        rw [contributions_congr e]
        exact contributions_eq_ok_iff.2
          (.inr (.inr ⟨op, l, r, x, y, dl, dr, hl, hx, hy, hp, rfl⟩))
      rw [accumulate_append, Except.bind_eq_ok_iff] at ha
      obtain ⟨k, hk, ha⟩ := ha
      rw [accumulate_map_below] at hk ha
      have e₁ := (withoutDerivs_withDeriv g₁ n (some total)).trans e
      have e₂ := (withoutDerivs_accumulate hk).trans e₁
      rw [List.length_cons, List.length_append, List.length_map, List.length_map,
        Nat.add_right_comm, sweepStack_cons hd hc, List.cons_append, List.singleton_append,
        Nat.add_assoc, ih₁ e₁ hk, ih₂ e₂ ha]
      simp [Visit.below, Function.comp_def]

/-- Where the loop does not fail, the node on top of the stack has visits that add up. -/
theorem exists_visits {steps : Nat} {g₁ : Graph V} (e : g₁.withoutDerivs = g.withoutDerivs)
    {stack : List (Nat × V)} {done : List Nat}
    (hok : (sweepStack rules steps ((n, d) :: stack) g₁ done).outcome = .ok ()) :
    ∃ vs h k, Visits rules g n d vs ∧ g₁.accumulate rules vs = .ok h ∧
      steps = vs.length + k := by
  induction steps using Nat.strongRecOn generalizing n d g₁ stack done with
  | _ steps ih =>
  obtain _ | steps := steps
  · cases hok
  cases hd : g₁.accumulated rules n d with
  | error e => simp [sweepStack, hd] at hok
  | ok total =>
      cases hc : g₁.contributions rules n d with
      | error e =>
          have hc' : (g₁.withDeriv n (some total)).contributions rules n d = .error e :=
            (contributions_congr (withoutDerivs_withDeriv g₁ n (some total)) n d).trans hc
          simp [sweepStack, hd, hc'] at hok
      | ok parts =>
          rw [sweepStack_cons hd hc] at hok
          have e₁ := (withoutDerivs_withDeriv g₁ n (some total)).trans e
          rw [contributions_congr e] at hc
          obtain ⟨hl, rfl⟩ | ⟨op, a, x, da, hl, hx, hp, rfl⟩ |
            ⟨op, l, r, x, y, dl, dr, hl, hx, hy, hp, rfl⟩ := contributions_eq_ok_iff.1 hc
          · refine ⟨_, g₁.withDeriv n (some total), steps, .leaf hl, ?_, Nat.add_comm _ _⟩
            exact accumulate_cons_eq_ok_iff.2 ⟨total, hd, rfl⟩
          · obtain ⟨vs, h, k, hv, ha, rfl⟩ := ih steps (Nat.lt_succ_self _) e₁ hok
            refine ⟨_, h, k, .unary hl hx hp hv, ?_, ?_⟩
            · exact accumulate_cons_eq_ok_iff.2 ⟨total, hd, by rwa [accumulate_map_below]⟩
            · rw [List.length_cons, List.length_map, Nat.add_right_comm]
          · obtain ⟨vs, h₁, k₁, hv, ha₁, rfl⟩ := ih steps (Nat.lt_succ_self _) e₁ hok
            rw [List.cons_append, hv.sweepStack_eq e₁ ha₁] at hok
            have e₂ := (withoutDerivs_accumulate ha₁).trans e₁
            obtain ⟨ws, h, k, hw, ha, rfl⟩ := ih k₁ (by omega) e₂ hok
            refine ⟨_, h, k, .binary hl hx hy hp hv hw, ?_, ?_⟩
            · refine accumulate_cons_eq_ok_iff.2 ⟨total, hd, ?_⟩
              rw [accumulate_append, accumulate_map_below, ha₁, Except.ok_bind,
                accumulate_map_below, ha]
            · simp only [List.length_cons, List.length_append, List.length_map]
              omega

/-- A pass that does not fail makes all the visits from the output and adds them up. -/
theorem visits_of_sweep {v : V} (hok : (sweep rules g n v).outcome = .ok ()) :
    ∃ vs, Visits rules g n (rules.seed v) vs ∧
      g.withoutDerivs.accumulate rules vs = .ok (sweep rules g n v).graph ∧
      (sweep rules g n v).visited = vs.map Visit.node := by
  have e := withoutDerivs_withoutDerivs g
  obtain ⟨vs, h, k, hv, ha, hk⟩ := exists_visits e hok
  have hs : sweep rules g n v = ⟨.ok (), h, vs.map Visit.node⟩ := by
    rw [sweep, hk, hv.sweepStack_eq e ha]
    simp [sweepStack]
  exact ⟨vs, hv, by rw [hs, ha], by rw [hs]⟩

end DiffGraph
