import DiffGraph.Operator.TensorRules
import DiffGraph.Proofs.Outcomes
import DiffGraph.Proofs.Tensor.Reduce

/-!
# Shapes under the rules of the operators

What shape a value has, and when a derivative rule gives gradients in the shapes of the operands.
Only the derivative rule of `dot` can fail on a gradient that has the shape of the value.
-/

namespace DiffGraph

variable {A : DType → Type} [Arithmetic A]

namespace Tensor

variable {f : {d : DType} → A d → A d → A d} {l r t : Tensor A}

theorem zip_eq_ok {s : Shape} (h : l.shape.broadcast r.shape = some s) :
    ∃ t, zip f l r = .ok t ∧ t.shape = s := by
  unfold zip
  rw [h]
  exact ⟨_, rfl, rfl⟩

theorem broadcast_of_zip (h : zip f l r = .ok t) : l.shape.broadcast r.shape = some t.shape := by
  unfold zip at h
  cases hs : l.shape.broadcast r.shape with
  | none =>
      rw [hs] at h
      cases h
  | some s =>
      rw [hs] at h
      cases h
      rfl

theorem zip_eq_ok_of_shape_eq (h : l.shape = r.shape) :
    ∃ t, zip f l r = .ok t ∧ t.shape = r.shape :=
  zip_eq_ok (by rw [h, Shape.broadcast_self])

theorem item_eq_ok (h : t.shape = []) : ∃ x, t.item = .ok x := by
  unfold item rank
  rw [h]
  exact ⟨_, rfl⟩

theorem reduceTo_eq_ok {s : Shape} (h : Grid.Reducible t.shape s) :
    ∃ t', t.reduceTo s = .ok t' ∧ t'.shape = s := by
  obtain ⟨g, hg, hs⟩ := Grid.reduceTo_eq_ok (Arithmetic.zero t.dtype) Arithmetic.add h
  exact ⟨⟨t.dtype, g⟩, by rw [reduceTo, hg]; rfl, hs⟩

theorem reduceTo_eq_error {s : Shape} (h : ¬ Grid.Reducible t.shape s) :
    ∃ e, t.reduceTo s = .error e ∧ e.Misfit := by
  obtain ⟨e, hg, he⟩ := Grid.reduceTo_eq_error (Arithmetic.zero t.dtype) Arithmetic.add h
  exact ⟨e, by rw [reduceTo, hg]; rfl, he⟩

theorem shape_of_reduceTo {s : Shape} {t' : Tensor A} (h : t.reduceTo s = .ok t') :
    t'.shape = s := by
  by_cases hs : Grid.Reducible t.shape s
  · obtain ⟨u, hu, hus⟩ := reduceTo_eq_ok hs
    rw [← Except.ok.inj (hu.symm.trans h), hus]
  · obtain ⟨e, he, -⟩ := reduceTo_eq_error hs
    rw [he] at h
    cases h

end Tensor

/-! ## Values -/

/-- A value rule of one operand never fails and keeps the shape. -/
theorem Unary.value_eq_ok (op : Unary) (a : Tensor A) :
    ∃ v, op.value a = .ok v ∧ v.shape = a.shape := by
  cases op with
  | square => exact Tensor.zip_eq_ok_of_shape_eq (l := a.conj) (r := a) rfl
  | _ => exact ⟨_, rfl, rfl⟩

theorem Binary.shape_value {op : Binary} (hop : op ≠ .dot) {l r v : Tensor A}
    (h : op.value l r = .ok v) : l.shape.broadcast r.shape = some v.shape := by
  cases op with
  | dot => exact (hop rfl).elim
  | _ => exact Tensor.broadcast_of_zip h

theorem Binary.shape_value_dot {l r v : Tensor A} (h : Binary.dot.value l r = .ok v) :
    v.shape = [] ∧ ∃ b, l.shape.broadcast r.shape = some b := by
  obtain ⟨t, ht, hv⟩ := Except.bind_eq_ok_iff.1 h
  cases hv
  exact ⟨rfl, t.shape, Tensor.broadcast_of_zip ht⟩

/-! ## Gradients -/

theorem Unary.overSquare_eq_ok {g c : Tensor A} (h : g.shape = c.shape) :
    ∃ t, Unary.overSquare g c = .ok t ∧ t.shape = c.shape := by
  obtain ⟨u, hu, hs⟩ := Tensor.zip_eq_ok_of_shape_eq (f := Arithmetic.mul) (l := c) (r := c) rfl
  obtain ⟨t, ht, hts⟩ := Tensor.zip_eq_ok_of_shape_eq (f := Arithmetic.div) (l := g) (r := u)
    (h.trans hs.symm)
  refine ⟨t, ?_, hts.trans hs⟩
  exact Except.bind_eq_ok_iff.2 ⟨u, hu, ht⟩

/-- The derivative rule of an operator of one operand never fails on a gradient of its shape. -/
theorem Unary.pull_eq_ok (op : Unary) {a g : Tensor A} (h : g.shape = a.shape) :
    ∃ d, op.pull a g = .ok d ∧ d.shape = a.shape := by
  cases op with
  | neg => exact ⟨g.neg, rfl, h⟩
  | square => exact Tensor.zip_eq_ok_of_shape_eq (r := a.conj.twice) h
  | exp => exact Tensor.zip_eq_ok_of_shape_eq (r := a.elementary .exp) h
  | ln => exact Tensor.zip_eq_ok_of_shape_eq (r := a) h
  | sin => exact Tensor.zip_eq_ok_of_shape_eq (r := a.elementary .cos) h
  | cos => exact Tensor.zip_eq_ok_of_shape_eq (r := (a.elementary .sin).neg) h
  | tan => exact Unary.overSquare_eq_ok (c := a.elementary .cos) h
  | sinh => exact Tensor.zip_eq_ok_of_shape_eq (r := a.elementary .cosh) h
  | cosh => exact Tensor.zip_eq_ok_of_shape_eq (r := a.elementary .sinh) h
  | tanh => exact Unary.overSquare_eq_ok (c := a.elementary .cosh) h

/-- A local derivative of a sum, product or quotient has the shape of the value. -/
theorem Binary.localPull_eq_ok {op : Binary} (hop : op ≠ .dot) {l r g : Tensor A}
    (h : l.shape.broadcast r.shape = some g.shape) :
    ∃ dl dr, op.localPull l r g = .ok (dl, dr) ∧ dl.shape = g.shape ∧ dr.shape = g.shape := by
  have hl := Shape.broadcast_left h
  have hr := Shape.broadcast_right h
  cases op with
  | dot => exact (hop rfl).elim
  | add => exact ⟨g, g, rfl, rfl, rfl⟩
  | mul =>
      obtain ⟨dl, hdl, hsl⟩ := Tensor.zip_eq_ok (f := Arithmetic.mul) hr
      obtain ⟨dr, hdr, hsr⟩ := Tensor.zip_eq_ok (f := Arithmetic.mul) hl
      refine ⟨dl, dr, ?_, hsl, hsr⟩
      exact Except.bind_eq_ok_iff.2 ⟨dl, hdl, Except.bind_eq_ok_iff.2 ⟨dr, hdr, rfl⟩⟩
  | div =>
      rw [Shape.broadcast_comm] at hr
      obtain ⟨dl, hdl, hsl⟩ := Tensor.zip_eq_ok (f := Arithmetic.div) hr
      obtain ⟨u, hu, hsu⟩ := Tensor.zip_eq_ok (f := Arithmetic.mul) (l := l.neg) hl
      obtain ⟨w, hw, hsw⟩ :=
        Tensor.zip_eq_ok_of_shape_eq (f := Arithmetic.mul) (l := r) (r := r) rfl
      obtain ⟨dr, hdr, hsr⟩ := Tensor.zip_eq_ok (f := Arithmetic.div) (l := u) (r := w)
        (s := g.shape) (by rw [hsu, hsw, hr])
      refine ⟨dl, dr, ?_, hsl, hsr⟩
      refine Except.bind_eq_ok_iff.2 ⟨dl, hdl, ?_⟩
      refine Except.bind_eq_ok_iff.2 ⟨l.neg, rfl, ?_⟩
      exact Except.bind_eq_ok_iff.2 ⟨u, hu, Except.bind_eq_ok_iff.2 ⟨w, hw,
        Except.bind_eq_ok_iff.2 ⟨dr, hdr, rfl⟩⟩⟩

/-- The derivative rule of a sum, product or quotient never fails on a gradient of the shape of
the value, and gives each operand a gradient of its shape. -/
theorem Binary.pull_eq_ok {op : Binary} (hop : op ≠ .dot) {l r g : Tensor A}
    (h : l.shape.broadcast r.shape = some g.shape) :
    ∃ dl dr, op.pull l r g = .ok (dl, dr) ∧ dl.shape = l.shape ∧ dr.shape = r.shape := by
  obtain ⟨ul, ur, hu, hul, hur⟩ := Binary.localPull_eq_ok hop h
  obtain ⟨dl, hdl, hsl⟩ := Tensor.reduceTo_eq_ok (t := ul) (s := l.shape)
    (hul ▸ Grid.reducible_of_broadcast (Shape.broadcast_left h))
  obtain ⟨dr, hdr, hsr⟩ := Tensor.reduceTo_eq_ok (t := ur) (s := r.shape)
    (hur ▸ Grid.reducible_of_broadcast (Shape.broadcast_right h))
  refine ⟨dl, dr, ?_, hsl, hsr⟩
  exact Except.bind_eq_ok_iff.2 ⟨(ul, ur), hu, Except.bind_eq_ok_iff.2 ⟨dl, hdl,
    Except.bind_eq_ok_iff.2 ⟨dr, hdr, rfl⟩⟩⟩

theorem Binary.localPull_of_pull {op : Binary} {l r g dl dr : Tensor A}
    (h : op.pull l r g = .ok (dl, dr)) :
    ∃ ul ur, op.localPull l r g = .ok (ul, ur) ∧ ul.reduceTo l.shape = .ok dl ∧
      ur.reduceTo r.shape = .ok dr := by
  obtain ⟨⟨ul, ur⟩, hu, h⟩ := Except.bind_eq_ok_iff.1 h
  obtain ⟨_, hl, h⟩ := Except.bind_eq_ok_iff.1 h
  obtain ⟨_, hr, h⟩ := Except.bind_eq_ok_iff.1 h
  cases h
  exact ⟨ul, ur, hu, hl, hr⟩

/-- The derivative rule of a sum of products, step by step. -/
theorem Binary.pull_dot {l r g : Tensor A} (hg : g.shape = []) :
    ∃ ul ur : Tensor A, ul.shape = r.shape ∧ ur.shape = l.shape ∧
      Binary.dot.pull l r g = (ul.reduceTo l.shape >>= fun dl =>
        ur.reduceTo r.shape >>= fun dr => .ok (dl, dr)) := by
  obtain ⟨x, hx⟩ := Tensor.item_eq_ok hg
  refine ⟨r.timesNumber x, l.timesNumber x, rfl, rfl, ?_⟩
  simp only [Binary.pull, Binary.localPull, Operations.timesEntry, Operations.fit, hx]
  rfl

theorem Binary.pull_dot_eq_ok {l r g : Tensor A} (hg : g.shape = []) {b : Shape}
    (hb : l.shape.broadcast r.shape = some b) (h : Grid.DotFits l.shape r.shape) :
    ∃ dl dr, Binary.dot.pull l r g = .ok (dl, dr) ∧ dl.shape = l.shape ∧ dr.shape = r.shape := by
  obtain ⟨ul, ur, hul, hur, hpull⟩ := Binary.pull_dot (l := l) (r := r) hg
  obtain ⟨h₁, h₂⟩ := (Grid.reducible_iff_dotFits hb).2 h
  obtain ⟨dl, hdl, hsl⟩ := Tensor.reduceTo_eq_ok (t := ul) (s := l.shape) (hul ▸ h₁)
  obtain ⟨dr, hdr, hsr⟩ := Tensor.reduceTo_eq_ok (t := ur) (s := r.shape) (hur ▸ h₂)
  exact ⟨dl, dr, by rw [hpull, hdl, Except.ok_bind, hdr, Except.ok_bind], hsl, hsr⟩

theorem Binary.pull_dot_eq_error {l r g : Tensor A} (hg : g.shape = []) {b : Shape}
    (hb : l.shape.broadcast r.shape = some b) (h : ¬ Grid.DotFits l.shape r.shape) :
    ∃ e, Binary.dot.pull l r g = .error e ∧ e.Misfit := by
  obtain ⟨ul, ur, hul, hur, hpull⟩ := Binary.pull_dot (l := l) (r := r) hg
  rw [hpull]
  by_cases h₁ : Grid.Reducible r.shape l.shape
  · have h₂ : ¬ Grid.Reducible l.shape r.shape := fun h₂ =>
      h ((Grid.reducible_iff_dotFits hb).1 ⟨h₁, h₂⟩)
    obtain ⟨dl, hdl, -⟩ := Tensor.reduceTo_eq_ok (t := ul) (s := l.shape) (hul ▸ h₁)
    obtain ⟨e, he, hcause⟩ := Tensor.reduceTo_eq_error (t := ur) (s := r.shape) (hur ▸ h₂)
    exact ⟨e, by rw [hdl, Except.ok_bind, he]; rfl, hcause⟩
  · obtain ⟨e, he, hcause⟩ := Tensor.reduceTo_eq_error (t := ul) (s := l.shape) (hul ▸ h₁)
    exact ⟨e, by rw [he]; rfl, hcause⟩

end DiffGraph
