import DiffGraph.Proofs.Tensor.Entries
import Mathlib.Tactic.Ring

/-!
# The derivative rules transpose the tangent rules

A tangent is pushed through an operator by the rule of differentiation that the operator is known
for: the tangents of the operands are multiplied by the local factors and broadcast as the operands
are. The derivative rule of the operator is the transpose of that map. The inner product of the
tangent of the value with the gradient that comes in is the sum of the inner products of the
tangents of the operands with the gradients that the rule gives them.
-/

namespace DiffGraph

variable {K : Type} [AlgebraicField K] [ElementaryFunctions K]

open ElementaryFunctions

/-! ## Operators of one operand -/

namespace Unary

/-- The local factor of an operator at an element. -/
def factor : Unary → K → K
  | .neg, _ => -1
  | .square, x => (1 + 1) * x
  | .exp, x => elementary .exp x
  | .ln, x => 1 / x
  | .sin, x => elementary .cos x
  | .cos, x => -elementary .sin x
  | .tan, x => 1 / (elementary .cos x * elementary .cos x)
  | .sinh, x => elementary .cosh x
  | .cosh, x => elementary .sinh x
  | .tanh, x => 1 / (elementary .cosh x * elementary .cosh x)

/-- The tangent of the value, from the operand and its tangent. -/
def push (op : Unary) (a t : Tensor (Scalars K)) : Except TensorError (Tensor (Scalars K)) :=
  match op with
  | .neg => .ok t.neg
  | .square => a.twice.mul t
  | op => t.mul (a.map op.factor)

variable {a d g t v : Tensor (Scalars K)} {s : Shape} {x y z : List Nat → K}

theorem overSquare_entries (hg : g.HasEntries s z) (ha : a.HasEntries s y) :
    ∃ d, overSquare g a = .ok d ∧ d.HasEntries s fun i => z i * (1 / (y i * y i)) := by
  obtain ⟨u, hu, hue⟩ := ha.mul_same ha
  obtain ⟨d, hd, hde⟩ := hg.div_same hue
  refine ⟨d, Except.bind_eq_ok_iff.2 ⟨u, hu, hd⟩, hde.congr fun i _ => ?_⟩
  rw [mul_one_div]

/-- The derivative rule multiplies the gradient that comes in by the local factors. -/
theorem pull_entries (op : Unary) (ha : a.HasEntries s x) (hg : g.HasEntries s z) :
    ∃ d, op.pull a g = .ok d ∧ d.HasEntries s fun i => z i * op.factor (x i) := by
  cases op with
  | neg => exact ⟨g.neg, rfl, hg.neg.congr fun i _ => (mul_neg_one (z i)).symm⟩
  | square => exact hg.mul_same ha.conj.twice
  | exp => exact hg.mul_same (ha.elementary .exp)
  | ln =>
      obtain ⟨d, hd, hde⟩ := hg.div_same ha
      exact ⟨d, hd, hde.congr fun i _ => (mul_one_div (z i) (x i)).symm⟩
  | sin => exact hg.mul_same (ha.elementary .cos)
  | cos => exact hg.mul_same (ha.elementary .sin).neg
  | tan => exact overSquare_entries hg (ha.elementary .cos)
  | sinh => exact hg.mul_same (ha.elementary .cosh)
  | cosh => exact hg.mul_same (ha.elementary .sinh)
  | tanh => exact overSquare_entries hg (ha.elementary .cosh)

theorem push_entries (op : Unary) (ha : a.HasEntries s x) (ht : t.HasEntries s y) :
    ∃ u, op.push a t = .ok u ∧ u.HasEntries s fun i => op.factor (x i) * y i := by
  cases op with
  | neg => exact ⟨t.neg, rfl, ht.neg.congr fun i _ => (neg_one_mul (y i)).symm⟩
  | square => exact ha.twice.mul_same ht
  | _ =>
      obtain ⟨u, hu, hue⟩ := ht.mul_same (ha.map _)
      exact ⟨u, hu, hue.congr fun i _ => mul_comm _ _⟩

theorem pull_transposes_push (op : Unary) (hv : op.value a = .ok v) (hg : g.shape = v.shape)
    (ht : t.shape = a.shape) (h : op.pull a g = .ok d) :
    ∃ u, op.push a t = .ok u ∧ u.shape = v.shape ∧ d.inner t = g.inner u := by
  obtain ⟨v', hv', hva⟩ := op.value_eq_ok a
  obtain rfl := Except.ok.inj (hv'.symm.trans hv)
  have ha := Tensor.HasEntries.self a
  have hg := Tensor.HasEntries.of_shape (hg.trans hva)
  have ht := Tensor.HasEntries.of_shape ht
  obtain ⟨d', hd', hde⟩ := op.pull_entries ha hg
  obtain ⟨u, hu, hue⟩ := op.push_entries ha ht
  obtain rfl := Except.ok.inj (hd'.symm.trans h)
  refine ⟨u, hu, hue.shape.trans hva.symm, ?_⟩
  rw [hde.inner ht, hg.inner hue]
  exact Finset.sum_congr rfl fun i _ => mul_assoc _ _ _

end Unary

/-! ## Operators of two operands -/

namespace Binary

/-- The local factor of the left operand. -/
def factorLeft : Binary → K → K → K
  | .add, _, _ => 1
  | .mul, _, y => y
  | .div, _, y => 1 / y
  | .dot, _, y => y

/-- The local factor of the right operand. -/
def factorRight : Binary → K → K → K
  | .add, _, _ => 1
  | .mul, x, _ => x
  | .div, x, y => -(x / (y * y))
  | .dot, x, _ => x

/-- The tangent of a product. -/
def pushProduct (l r tl tr : Tensor (Scalars K)) : Except TensorError (Tensor (Scalars K)) := do
  Tensor.add (← tl.mul r) (← l.mul tr)

/-- The tangent of the value, from the operands and their tangents. -/
def push (op : Binary) (l r tl tr : Tensor (Scalars K)) :
    Except TensorError (Tensor (Scalars K)) :=
  match op with
  | .add => tl.add tr
  | .mul => pushProduct l r tl tr
  | .div => do
    let right ← Tensor.div (← l.mul tr) (← r.mul r)
    Tensor.add (← tl.div r) right.neg
  | .dot => do return (← pushProduct l r tl tr).sumAll

variable {l r g tl tr dl dr v : Tensor (Scalars K)} {s s' b : Shape}
  {x y z xt yt : List Nat → K}

/-- Where the operands of a tangent meet, it is the sum of their tangents times the factors. -/
def tangentAt (op : Binary) (s s' : Shape) (x y xt yt : List Nat → K) (i : List Nat) : K :=
  op.factorLeft (x (s.project i)) (y (s'.project i)) * xt (s.project i) +
    op.factorRight (x (s.project i)) (y (s'.project i)) * yt (s'.project i)

theorem pushProduct_entries (hl : l.HasEntries s x) (hr : r.HasEntries s' y)
    (htl : tl.HasEntries s xt) (htr : tr.HasEntries s' yt) (hb : s.broadcast s' = some b) :
    ∃ u, pushProduct l r tl tr = .ok u ∧ u.HasEntries b (Binary.mul.tangentAt s s' x y xt yt) := by
  obtain ⟨p, hp, hpe⟩ := htl.mul hr hb
  obtain ⟨q, hq, hqe⟩ := hl.mul htr hb
  obtain ⟨u, hu, hue⟩ := hpe.add_same hqe
  refine ⟨u, ?_, hue.congr fun i _ => ?_⟩
  · exact Except.bind_eq_ok_iff.2 ⟨p, hp, Except.bind_eq_ok_iff.2 ⟨q, hq, hu⟩⟩
  · rw [tangentAt, factorLeft, factorRight, mul_comm (y _)]

theorem push_entries {op : Binary} (hop : op ≠ .dot) (hl : l.HasEntries s x)
    (hr : r.HasEntries s' y) (htl : tl.HasEntries s xt) (htr : tr.HasEntries s' yt)
    (hb : s.broadcast s' = some b) :
    ∃ u, op.push l r tl tr = .ok u ∧ u.HasEntries b (op.tangentAt s s' x y xt yt) := by
  cases op with
  | dot => exact (hop rfl).elim
  | add =>
      obtain ⟨u, hu, hue⟩ := htl.add htr hb
      refine ⟨u, hu, hue.congr fun i _ => ?_⟩
      rw [tangentAt, factorLeft, factorRight, one_mul, one_mul]
  | mul => exact pushProduct_entries hl hr htl htr hb
  | div =>
      obtain ⟨p, hp, hpe⟩ := hl.mul htr hb
      obtain ⟨w, hw, hwe⟩ := hr.mul_same hr
      obtain ⟨q, hq, hqe⟩ := hpe.div hwe (b := b)
        ((Shape.broadcast_comm b s').trans (Shape.broadcast_right hb))
      obtain ⟨c, hc, hce⟩ := htl.div hr hb
      obtain ⟨u, hu, hue⟩ := hce.add_same hqe.neg
      refine ⟨u, ?_, hue.congr fun i hi => ?_⟩
      · refine Except.bind_eq_ok_iff.2 ⟨p, hp, Except.bind_eq_ok_iff.2 ⟨w, hw, ?_⟩⟩
        exact Except.bind_eq_ok_iff.2 ⟨q, hq, Except.bind_eq_ok_iff.2 ⟨c, hc, hu⟩⟩
      · rw [tangentAt, factorLeft, factorRight, Shape.project_self hi]
        ring

/-- The local derivatives multiply the gradient that comes in by the local factors. -/
theorem localPull_entries {op : Binary} (hop : op ≠ .dot) (hl : l.HasEntries s x)
    (hr : r.HasEntries s' y) (hg : g.HasEntries b z) (hb : s.broadcast s' = some b) :
    ∃ dl dr, op.localPull l r g = .ok (dl, dr) ∧
      (dl.HasEntries b fun i => z i * op.factorLeft (x (s.project i)) (y (s'.project i))) ∧
      dr.HasEntries b fun i => z i * op.factorRight (x (s.project i)) (y (s'.project i)) := by
  have hsb := Shape.broadcast_left hb
  have hsb' := Shape.broadcast_right hb
  have hbs' := (Shape.broadcast_comm b s').trans hsb'
  cases op with
  | dot => exact (hop rfl).elim
  | add =>
      have hge := hg.congr fun i _ => (mul_one (z i)).symm
      exact ⟨g, g, rfl, hge, hge⟩
  | mul =>
      obtain ⟨dl, hdl, hle⟩ := hr.mul hg hsb'
      obtain ⟨dr, hdr, hre⟩ := hl.mul hg hsb
      refine ⟨dl, dr, ?_, hle.congr fun i hi => ?_, hre.congr fun i hi => ?_⟩
      · exact Except.bind_eq_ok_iff.2 ⟨dl, hdl, Except.bind_eq_ok_iff.2 ⟨dr, hdr, rfl⟩⟩
      · rw [Shape.project_self hi, factorLeft, mul_comm]
      · rw [Shape.project_self hi, factorRight, mul_comm]
  | div =>
      obtain ⟨dl, hdl, hle⟩ := hg.div hr hbs'
      obtain ⟨p, hp, hpe⟩ := hl.neg.mul hg hsb
      obtain ⟨w, hw, hwe⟩ := hr.mul_same hr
      obtain ⟨dr, hdr, hre⟩ := hpe.div hwe hbs'
      refine ⟨dl, dr, ?_, hle.congr fun i hi => ?_, hre.congr fun i hi => ?_⟩
      · refine Except.bind_eq_ok_iff.2 ⟨dl, hdl, ?_⟩
        refine Except.bind_eq_ok_iff.2 ⟨l.neg, rfl, ?_⟩
        exact Except.bind_eq_ok_iff.2 ⟨p, hp, Except.bind_eq_ok_iff.2 ⟨w, hw,
          Except.bind_eq_ok_iff.2 ⟨dr, hdr, rfl⟩⟩⟩
      · rw [Shape.project_self hi, factorLeft, mul_one_div]
      · rw [Shape.project_self hi, Shape.project_self hi, factorRight]
        ring

theorem localPull_dot (g : Tensor (Scalars K)) (hg : g.HasEntries [] z) :
    Binary.dot.localPull l r g =
      .ok (r.timesNumber (e := g.dtype) (z []), l.timesNumber (e := g.dtype) (z [])) := by
  simp only [localPull, Operations.timesEntry, hg.item]
  rfl

omit [ElementaryFunctions K] in
theorem sum_tangentAt (op : Binary) (z : List Nat → K) :
    ∑ i ∈ b.positions,
        z i * op.factorLeft (x (s.project i)) (y (s'.project i)) * xt (s.project i) +
      ∑ i ∈ b.positions,
        z i * op.factorRight (x (s.project i)) (y (s'.project i)) * yt (s'.project i) =
      ∑ i ∈ b.positions, z i * op.tangentAt s s' x y xt yt i := by
  rw [← Finset.sum_add_distrib]
  refine Finset.sum_congr rfl fun i _ => ?_
  rw [tangentAt]
  ring

/-- A sum, product or quotient: each operand is brought back from the shape of the value. -/
theorem pull_transposes_push_of_ne_dot {op : Binary} (hop : op ≠ .dot)
    (hb : l.shape.broadcast r.shape = some g.shape) (htl : tl.shape = l.shape)
    (htr : tr.shape = r.shape) (h : op.pull l r g = .ok (dl, dr)) :
    ∃ u, op.push l r tl tr = .ok u ∧ u.shape = g.shape ∧
      dl.inner tl + dr.inner tr = g.inner u := by
  have hl := Tensor.HasEntries.self l
  have hr := Tensor.HasEntries.self r
  have hg := Tensor.HasEntries.self g
  have htl := Tensor.HasEntries.of_shape htl
  have htr := Tensor.HasEntries.of_shape htr
  obtain ⟨u, hu, hue⟩ := push_entries hop hl hr htl htr hb
  obtain ⟨ul, ur, hlocal, hdl, hdr⟩ := localPull_of_pull h
  obtain ⟨ul', ur', hlocal', hule, hure⟩ := localPull_entries hop hl hr hg hb
  obtain ⟨rfl, rfl⟩ := Prod.mk.inj (Except.ok.inj (hlocal'.symm.trans hlocal))
  refine ⟨u, hu, hue.shape, ?_⟩
  rw [hule.inner_reduceTo htl (Shape.broadcast_left hb) (.inl rfl) hdl,
    hure.inner_reduceTo htr (Shape.broadcast_right hb) (.inl rfl) hdr, hg.inner hue,
    ← sum_tangentAt]
  congr 1
  · exact Finset.sum_congr rfl fun i hi => by rw [Shape.project_self (Shape.mem_positions.1 hi)]
  · exact Finset.sum_congr rfl fun i hi => by rw [Shape.project_self (Shape.mem_positions.1 hi)]

/-- A sum of products: each operand is brought back from the shape of the other one. -/
theorem pull_dot_transposes_push (hb : l.shape.broadcast r.shape = some b) (hg : g.shape = [])
    (htl : tl.shape = l.shape) (htr : tr.shape = r.shape)
    (h : Binary.dot.pull l r g = .ok (dl, dr)) :
    ∃ u, Binary.dot.push l r tl tr = .ok u ∧ u.shape = [] ∧
      dl.inner tl + dr.inner tr = g.inner u := by
  have hl := Tensor.HasEntries.self l
  have hr := Tensor.HasEntries.self r
  have hfit : Grid.DotFits l.shape r.shape := by
    by_contra hfit
    obtain ⟨e, he, -⟩ := pull_dot_eq_error hg hb hfit
    rw [h] at he
    cases he
  have hg := Tensor.HasEntries.of_shape hg
  have htl := Tensor.HasEntries.of_shape htl
  have htr := Tensor.HasEntries.of_shape htr
  have hb' := (Shape.broadcast_comm r.shape l.shape).trans hb
  obtain ⟨u, hu, hue⟩ := pushProduct_entries hl hr htl htr hb
  obtain ⟨ul, ur, hlocal, hdl, hdr⟩ := localPull_of_pull h
  obtain ⟨rfl, rfl⟩ := Prod.mk.inj (Except.ok.inj ((localPull_dot g hg).symm.trans hlocal))
  refine ⟨u.sumAll, Except.bind_eq_ok_iff.2 ⟨u, hu, rfl⟩, rfl, ?_⟩
  rw [(hr.timesNumber _).inner_reduceTo htl hb (Grid.comesFrom_of_dotFits hb hfit) hdl,
    (hl.timesNumber _).inner_reduceTo htr hb'
      (Grid.comesFrom_of_dotFits hb' (Grid.dotFits_comm.1 hfit)) hdr,
    hg.inner hue.sumAll, Shape.positions_nil, Finset.sum_singleton, Finset.mul_sum,
    ← sum_tangentAt Binary.mul fun _ => g.entryAt []]
  congr 1
  · exact Finset.sum_congr rfl fun i _ => by rw [factorLeft, mul_comm (r.entryAt _)]
  · exact Finset.sum_congr rfl fun i _ => by rw [factorRight, mul_comm (l.entryAt _)]

theorem pull_transposes_push (op : Binary) (hv : op.value l r = .ok v) (hg : g.shape = v.shape)
    (htl : tl.shape = l.shape) (htr : tr.shape = r.shape) (h : op.pull l r g = .ok (dl, dr)) :
    ∃ u, op.push l r tl tr = .ok u ∧ u.shape = v.shape ∧
      dl.inner tl + dr.inner tr = g.inner u := by
  by_cases hop : op = .dot
  · subst hop
    obtain ⟨hnil, b, hb⟩ := shape_value_dot hv
    rw [hnil] at hg ⊢
    exact pull_dot_transposes_push hb hg htl htr h
  · have hb := shape_value hop hv
    rw [← hg] at hb ⊢
    exact pull_transposes_push_of_ne_dot hop hb htl htr h

end Binary

end DiffGraph
