import DiffGraph.Operator.TensorRules
import DiffGraph.Proofs.Calculus.Slopes
import DiffGraph.Proofs.Graph.Unfolding

/-!
# The derivative of an expression tree

With numbers at its leaves an expression tree is a real function of each leaf, and the chain rule
gives its partial derivative by recursion over the tree.
-/

namespace DiffGraph

namespace Unfolding

/-- The number that a tree computes from the numbers at its leaves. -/
noncomputable def number (σ : Nat → ℝ) : Unfolding → ℝ
  | .leaf n => σ n
  | .unary _ op t => op.real (t.number σ)
  | .binary _ op l r => op.real (l.number σ) (r.number σ)

/-- The partial derivative of a tree with respect to the leaf `v`. -/
noncomputable def slope (σ : Nat → ℝ) (v : Nat) : Unfolding → ℝ
  | .leaf n => if n = v then 1 else 0
  | .unary _ op t => op.slope (t.number σ) * t.slope σ v
  | .binary _ op l r =>
      op.slopeLeft (l.number σ) (r.number σ) * l.slope σ v +
        op.slopeRight (l.number σ) (r.number σ) * r.slope σ v

/-- Every operator of a tree can be differentiated where it is applied. -/
def Regular (σ : Nat → ℝ) : Unfolding → Prop
  | .leaf _ => True
  | .unary _ op t => t.Regular σ ∧ op.Regular (t.number σ)
  | .binary _ op l r => l.Regular σ ∧ r.Regular σ ∧ op.Regular (l.number σ) (r.number σ)

theorem hasDerivAt_number {σ : Nat → ℝ} {t : Unfolding} (v : Nat) (h : t.Regular σ) :
    HasDerivAt (fun x => t.number (Function.update σ v x)) (t.slope σ v) (σ v) := by
  have hσ : Function.update σ v (σ v) = σ := Function.update_eq_self v σ
  induction t with
  | leaf n =>
      by_cases hn : n = v
      · subst hn
        simp only [number, slope, Function.update_self, if_true]
        exact hasDerivAt_id' (σ n)
      · simp only [number, slope, Function.update_of_ne hn, if_neg hn]
        exact hasDerivAt_const (σ v) (σ n)
  | unary n op t ih =>
      have hop : HasDerivAt op.real (op.slope (t.number σ))
          (t.number (Function.update σ v (σ v))) := by
        rw [hσ]
        exact op.hasDerivAt_real h.2
      exact hop.comp (σ v) (ih h.1)
  | binary n op l r ihl ihr =>
      have hop := op.hasDerivAt_real (ihl h.1) (ihr h.2.1) (by rw [hσ]; exact h.2.2)
      rw [hσ] at hop
      exact hop

/-- On numbers the plain recursion over a tree never fails. -/
theorem value_number {leaf : Nat → Except (Fault TensorError) (Tensor RealScalars)}
    {σ : Nat → ℝ} {t : Unfolding} (h : ∀ n ∈ t.leaves, ∃ s, leaf n = .ok s ∧ s.IsNumber (σ n)) :
    ∃ s, t.value (Tensor.rules RealScalars) leaf = .ok s ∧ s.IsNumber (t.number σ) := by
  induction t with
  | leaf n => exact h n List.mem_cons_self
  | unary n op t ih =>
      obtain ⟨x, hx, hnx⟩ := ih h
      obtain ⟨s, hs, hns⟩ := op.value_number hnx
      exact ⟨s, Except.bind_eq_ok_iff.2 ⟨x, hx, Except.mapError_eq_ok_iff.2 hs⟩, hns⟩
  | binary n op l r ihl ihr =>
      obtain ⟨x, hx, hnx⟩ := ihl fun n hn => h n (List.mem_append_left _ hn)
      obtain ⟨y, hy, hny⟩ := ihr fun n hn => h n (List.mem_append_right _ hn)
      obtain ⟨s, hs, hns⟩ := op.value_number hnx hny
      exact ⟨s, Except.bind_eq_ok_iff.2 ⟨x, hx, Except.bind_eq_ok_iff.2 ⟨y, hy,
        Except.mapError_eq_ok_iff.2 hs⟩⟩, hns⟩

end Unfolding

end DiffGraph
