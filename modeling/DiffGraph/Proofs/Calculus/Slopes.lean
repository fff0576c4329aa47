import DiffGraph.Proofs.Calculus.Numbers
import Mathlib.Analysis.SpecialFunctions.Log.Deriv
import Mathlib.Analysis.SpecialFunctions.Trigonometric.ArctanDeriv
import Mathlib.Analysis.SpecialFunctions.Trigonometric.DerivHyp
import Mathlib.Topology.Algebra.Module.ModuleTopology

/-!
# The derivative rules are the derivatives

On numbers each value rule is a real function of one or two variables, and each derivative rule
multiplies the gradient that comes in by the partial derivative of that function. The functions are
differentiable where they are regular: a logarithm at a positive number, a tangent where the cosine
does not vanish, a quotient where the divisor does not.
-/

namespace DiffGraph

namespace Unary

/-- The real function of an operator. -/
noncomputable def real : Unary → ℝ → ℝ
  | .neg, x => -x
  | .square, x => x * x
  | .exp, x => Real.exp x
  | .ln, x => Real.log x
  | .sin, x => Real.sin x
  | .cos, x => Real.cos x
  | .tan, x => Real.tan x
  | .sinh, x => Real.sinh x
  | .cosh, x => Real.cosh x
  | .tanh, x => Real.tanh x

/-- The derivative of the real function of an operator. -/
noncomputable def slope : Unary → ℝ → ℝ
  | .neg, _ => -1
  | .square, x => 2 * x
  | .exp, x => Real.exp x
  | .ln, x => 1 / x
  | .sin, x => Real.cos x
  | .cos, x => -Real.sin x
  | .tan, x => 1 / (Real.cos x * Real.cos x)
  | .sinh, x => Real.cosh x
  | .cosh, x => Real.sinh x
  | .tanh, x => 1 / (Real.cosh x * Real.cosh x)

/-- Where an operator can be differentiated. -/
def Regular : Unary → ℝ → Prop
  | .ln, x => 0 < x
  | .tan, x => Real.cos x ≠ 0
  | _, _ => True

variable {a g c : Tensor RealScalars} {x y z : ℝ}

theorem value_number (op : Unary) (ha : a.IsNumber x) :
    ∃ v, op.value a = .ok v ∧ v.IsNumber (op.real x) := by
  cases op with
  | neg => exact ⟨a.neg, rfl, ha.neg⟩
  | square => exact ha.conj.mul ha
  | exp => exact ⟨_, rfl, ha.elementary .exp⟩
  | ln => exact ⟨_, rfl, ha.elementary .ln⟩
  | sin => exact ⟨_, rfl, ha.elementary .sin⟩
  | cos => exact ⟨_, rfl, ha.elementary .cos⟩
  | tan => exact ⟨_, rfl, ha.elementary .tan⟩
  | sinh => exact ⟨_, rfl, ha.elementary .sinh⟩
  | cosh => exact ⟨_, rfl, ha.elementary .cosh⟩
  | tanh => exact ⟨_, rfl, ha.elementary .tanh⟩

theorem overSquare_number (hg : g.IsNumber z) (hc : c.IsNumber y) :
    ∃ d, overSquare g c = .ok d ∧ d.IsNumber (z * (1 / (y * y))) := by
  obtain ⟨u, hu, hnu⟩ := hc.mul hc
  obtain ⟨d, hd, hnd⟩ := hg.div hnu
  rw [mul_one_div]
  exact ⟨d, Except.bind_eq_ok_iff.2 ⟨u, hu, hd⟩, hnd⟩

/-- The derivative rule multiplies the gradient that comes in by the derivative. -/
theorem pull_number (op : Unary) (ha : a.IsNumber x) (hg : g.IsNumber z) :
    ∃ d, op.pull a g = .ok d ∧ d.IsNumber (z * op.slope x) := by
  cases op with
  | neg =>
      have hz : z * -1 = -z := by ring
      exact ⟨g.neg, rfl, by simpa only [slope, hz] using hg.neg⟩
  | square => exact hg.mul ha.conj.twice
  | exp => exact hg.mul (ha.elementary .exp)
  | ln =>
      rw [slope, mul_one_div]
      exact hg.div ha
  | sin => exact hg.mul (ha.elementary .cos)
  | cos => exact hg.mul (ha.elementary .sin).neg
  | tan => exact overSquare_number hg (ha.elementary .cos)
  | sinh => exact hg.mul (ha.elementary .cosh)
  | cosh => exact hg.mul (ha.elementary .sinh)
  | tanh => exact overSquare_number hg (ha.elementary .cosh)

theorem hasDerivAt_tanh (x : ℝ) :
    HasDerivAt Real.tanh (1 / (Real.cosh x * Real.cosh x)) x := by
  have hpos : Real.cosh x ≠ 0 := (Real.cosh_pos x).ne'
  have htanh : Real.tanh = fun x => Real.sinh x / Real.cosh x := funext Real.tanh_eq_sinh_div_cosh
  rw [htanh]
  refine ((Real.hasDerivAt_sinh x).fun_div (Real.hasDerivAt_cosh x) hpos).congr_deriv ?_
  have hsq : Real.cosh x * Real.cosh x - Real.sinh x * Real.sinh x = 1 := by
    rw [← sq, ← sq, Real.cosh_sq_sub_sinh_sq]
  rw [hsq, sq]

theorem hasDerivAt_real (op : Unary) (h : op.Regular x) : HasDerivAt op.real (op.slope x) x := by
  cases op with
  | neg => exact hasDerivAt_neg x
  | square =>
      refine ((hasDerivAt_id' x).fun_mul (hasDerivAt_id' x)).congr_deriv ?_
      rw [slope]
      ring
  | exp => exact Real.hasDerivAt_exp x
  | ln =>
      refine (Real.hasDerivAt_log (ne_of_gt h)).congr_deriv ?_
      rw [slope, one_div]
  | sin => exact Real.hasDerivAt_sin x
  | cos => exact Real.hasDerivAt_cos x
  | tan =>
      refine (Real.hasDerivAt_tan h).congr_deriv ?_
      rw [slope, sq]
  | sinh => exact Real.hasDerivAt_sinh x
  | cosh => exact Real.hasDerivAt_cosh x
  | tanh => exact hasDerivAt_tanh x

end Unary

namespace Binary

/-- The real function of an operator. On numbers a sum of products has one term. -/
noncomputable def real : Binary → ℝ → ℝ → ℝ
  | .add, x, y => x + y
  | .mul, x, y => x * y
  | .div, x, y => x / y
  | .dot, x, y => x * y

/-- The derivative with respect to the left operand. -/
noncomputable def slopeLeft : Binary → ℝ → ℝ → ℝ
  | .add, _, _ => 1
  | .mul, _, y => y
  | .div, _, y => 1 / y
  | .dot, _, y => y

/-- The derivative with respect to the right operand. -/
noncomputable def slopeRight : Binary → ℝ → ℝ → ℝ
  | .add, _, _ => 1
  | .mul, x, _ => x
  | .div, x, y => -x / (y * y)
  | .dot, x, _ => x

/-- Where an operator can be differentiated. -/
def Regular : Binary → ℝ → ℝ → Prop
  | .div, _, y => y ≠ 0
  | _, _, _ => True

variable {l r g : Tensor RealScalars} {x y z : ℝ}

theorem value_number (op : Binary) (hl : l.IsNumber x) (hr : r.IsNumber y) :
    ∃ v, op.value l r = .ok v ∧ v.IsNumber (op.real x y) := by
  cases op with
  | add => exact hl.add hr
  | mul => exact hl.mul hr
  | div => exact hl.div hr
  | dot =>
      obtain ⟨u, hu, hnu⟩ := hl.mul hr
      exact ⟨u.sumAll, Except.bind_eq_ok_iff.2 ⟨u, hu, rfl⟩, hnu.sumAll⟩

theorem localPull_number (op : Binary) (hl : l.IsNumber x) (hr : r.IsNumber y)
    (hg : g.IsNumber z) :
    ∃ dl dr, op.localPull l r g = .ok (dl, dr) ∧ dl.IsNumber (z * op.slopeLeft x y) ∧
      dr.IsNumber (z * op.slopeRight x y) := by
  cases op with
  | add =>
      rw [slopeLeft, slopeRight, mul_one]
      exact ⟨g, g, rfl, hg, hg⟩
  | mul =>
      obtain ⟨dl, hdl, hnl⟩ := hr.mul hg
      obtain ⟨dr, hdr, hnr⟩ := hl.mul hg
      rw [slopeLeft, slopeRight, mul_comm z y, mul_comm z x]
      exact ⟨dl, dr, Except.bind_eq_ok_iff.2 ⟨dl, hdl, Except.bind_eq_ok_iff.2 ⟨dr, hdr, rfl⟩⟩,
        hnl, hnr⟩
  | div =>
      obtain ⟨dl, hdl, hnl⟩ := hg.div hr
      obtain ⟨u, hu, hnu⟩ := hl.neg.mul hg
      obtain ⟨w, hw, hnw⟩ := hr.mul hr
      obtain ⟨dr, hdr, hnr⟩ := hnu.div hnw
      rw [slopeLeft, slopeRight, mul_one_div, ← mul_div_assoc, mul_comm z (-x)]
      refine ⟨dl, dr, ?_, hnl, hnr⟩
      refine Except.bind_eq_ok_iff.2 ⟨dl, hdl, ?_⟩
      refine Except.bind_eq_ok_iff.2 ⟨l.neg, rfl, ?_⟩
      exact Except.bind_eq_ok_iff.2 ⟨u, hu, Except.bind_eq_ok_iff.2 ⟨w, hw,
        Except.bind_eq_ok_iff.2 ⟨dr, hdr, rfl⟩⟩⟩
  | dot =>
      rw [slopeLeft, slopeRight, mul_comm z y, mul_comm z x]
      refine ⟨r.timesNumber (e := g.dtype) z, l.timesNumber (e := g.dtype) z, ?_, hr.timesNumber z,
        hl.timesNumber z⟩
      simp only [localPull, Operations.timesEntry, hg.item]
      rfl

/-- The derivative rule multiplies the gradient that comes in by the partial derivatives. -/
theorem pull_number (op : Binary) (hl : l.IsNumber x) (hr : r.IsNumber y) (hg : g.IsNumber z) :
    ∃ dl dr, op.pull l r g = .ok (dl, dr) ∧ dl.IsNumber (z * op.slopeLeft x y) ∧
      dr.IsNumber (z * op.slopeRight x y) := by
  obtain ⟨dl, dr, hd, hnl, hnr⟩ := op.localPull_number hl hr hg
  refine ⟨dl, dr, ?_, hnl, hnr⟩
  exact Except.bind_eq_ok_iff.2 ⟨(dl, dr), hd, Except.bind_eq_ok_iff.2 ⟨dl, hnl.reduceTo hl,
    Except.bind_eq_ok_iff.2 ⟨dr, hnr.reduceTo hr, rfl⟩⟩⟩

theorem hasDerivAt_real (op : Binary) {f k : ℝ → ℝ} {f' k' : ℝ} (hf : HasDerivAt f f' x)
    (hk : HasDerivAt k k' x) (h : op.Regular (f x) (k x)) :
    HasDerivAt (fun x => op.real (f x) (k x))
      (op.slopeLeft (f x) (k x) * f' + op.slopeRight (f x) (k x) * k') x := by
  cases op with
  | add =>
      refine (hf.fun_add hk).congr_deriv ?_
      rw [slopeLeft, slopeRight, one_mul, one_mul]
  | mul | dot =>
      refine (hf.fun_mul hk).congr_deriv ?_
      rw [slopeLeft, slopeRight]
      ring
  | div =>
      have hne : k x ≠ 0 := h
      refine (hf.fun_div hk hne).congr_deriv ?_
      rw [slopeLeft, slopeRight]
      field_simp
      ring

end Binary

end DiffGraph
