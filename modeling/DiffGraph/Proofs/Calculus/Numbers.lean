import DiffGraph.Operator.TensorRules
import DiffGraph.Proofs.Outcomes
import DiffGraph.Proofs.Tensor.Positions
import Mathlib.Analysis.SpecialFunctions.Log.Basic
import Mathlib.Analysis.SpecialFunctions.Trigonometric.Basic

/-!
# Tensors of rank 0 over the real numbers

Over the real numbers every element type has the same elements and nothing is rounded. A tensor of
rank 0 is then a number, and all operations on tensors are operations on numbers; none of them
fails.
-/

namespace DiffGraph

/-- The elementary functions of a real number. -/
noncomputable def Elementary.real : Elementary → ℝ → ℝ
  | .exp => Real.exp
  | .ln => Real.log
  | .sin => Real.sin
  | .cos => Real.cos
  | .tan => Real.tan
  | .sinh => Real.sinh
  | .cosh => Real.cosh
  | .tanh => Real.tanh

/-- Real numbers as the elements of every element type. -/
abbrev RealScalars : DType → Type := fun _ => ℝ

noncomputable instance : Arithmetic RealScalars where
  zero _ := (0 : ℝ)
  one _ := (1 : ℝ)
  neg x := (-x : ℝ)
  conj x := x
  add x y := (x + y : ℝ)
  mul x y := (x * y : ℝ)
  div x y := (x / y : ℝ)
  elementary f x := f.real x
  cast _ x := x

namespace Grid

variable {α : Type} {g : Grid α}

theorem get_eq_of_data (outside : α) {x : α} (hx : g.data = #[x]) (hg : g.shape = []) :
    g.get outside [] = x := by
  rw [get, hx, hg]
  rfl

/-- A grid of rank 0 holds one entry. -/
theorem data_eq_singleton (outside : α) (hg : g.shape = []) :
    g.data = #[g.get outside []] := by
  have hsize : g.data.size = 1 := by rw [g.size_data, hg, Shape.size_nil]
  obtain ⟨x, hx⟩ := Array.size_eq_one_iff.1 hsize
  rw [get_eq_of_data outside hx hg, hx]

theorem nil_mem_indices (hg : g.shape = []) : [] ∈ g.shape.indices := by
  simp [hg]

end Grid

namespace Tensor

/-- The entry of a tensor of rank 0. -/
noncomputable def entry (t : Tensor RealScalars) : ℝ := t.grid.get (0 : ℝ) []

/-- A tensor of rank 0 with a given entry. -/
structure IsNumber (t : Tensor RealScalars) (x : ℝ) : Prop where
  shape : t.shape = []
  entry : t.entry = x

namespace IsNumber

variable {t l r : Tensor RealScalars} {x y : ℝ}

theorem of_shape (h : t.shape = []) : t.IsNumber t.entry := ⟨h, rfl⟩

theorem single {d : DType} (x : ℝ) : (Tensor.single (d := d) x : Tensor RealScalars).IsNumber x :=
  ⟨rfl, rfl⟩

/-! ## Operations -/

theorem map (ht : t.IsNumber x) (f : ℝ → ℝ) : (t.map f).IsNumber (f x) := by
  refine ⟨ht.shape, ?_⟩
  rw [← ht.entry]
  exact Grid.get_map _ _ f (Grid.nil_mem_indices ht.shape)

theorem zip (hl : l.IsNumber x) (hr : r.IsNumber y) (f : DType → ℝ → ℝ → ℝ) :
    ∃ t, Tensor.zip (A := RealScalars) (fun {d} => f d) l r = .ok t ∧
      t.IsNumber (f (l.dtype.join r.dtype) x y) := by
  have hb : l.shape.broadcast r.shape = some [] := by rw [hl.shape, hr.shape, Shape.broadcast_self]
  unfold Tensor.zip
  rw [hb]
  refine ⟨_, rfl, rfl, ?_⟩
  have hls : l.grid.shape = [] := hl.shape
  have hrs : r.grid.shape = [] := hr.shape
  rw [← hl.entry, ← hr.entry]
  refine (Grid.get_zip _ _ _ _ l.grid r.grid (by simp)).trans ?_
  rw [hls, hrs]
  rfl

theorem add (hl : l.IsNumber x) (hr : r.IsNumber y) :
    ∃ t, l.add r = .ok t ∧ t.IsNumber (x + y) := hl.zip hr fun _ x y => x + y

theorem mul (hl : l.IsNumber x) (hr : r.IsNumber y) :
    ∃ t, l.mul r = .ok t ∧ t.IsNumber (x * y) := hl.zip hr fun _ x y => x * y

theorem div (hl : l.IsNumber x) (hr : r.IsNumber y) :
    ∃ t, l.div r = .ok t ∧ t.IsNumber (x / y) := hl.zip hr fun _ x y => x / y

theorem neg (ht : t.IsNumber x) : t.neg.IsNumber (-x) := ht.map fun x => -x

theorem conj (ht : t.IsNumber x) : t.conj.IsNumber x := ht.map fun x => x

theorem elementary (f : Elementary) (ht : t.IsNumber x) : (t.elementary f).IsNumber (f.real x) :=
  ht.map f.real

theorem twice (ht : t.IsNumber x) : t.twice.IsNumber (2 * x) := by
  have h : t.twice.IsNumber ((1 + 1) * x) := ht.map fun x => (1 + 1) * x
  rwa [one_add_one_eq_two] at h

theorem sumAll (ht : t.IsNumber x) : t.sumAll.IsNumber x := by
  refine ⟨rfl, ?_⟩
  have hdata := Grid.data_eq_singleton (0 : ℝ) ht.shape
  have hsum : t.grid.sum (0 : ℝ) (· + ·) = x := by
    rw [Grid.sum, hdata, ← ht.entry]
    exact zero_add _
  exact hsum

theorem item (ht : t.IsNumber x) : t.item = .ok x := by
  have hrank : t.rank = 0 := by rw [rank, ht.shape, List.length_nil]
  rw [Tensor.item, if_pos hrank, ← ht.entry]
  rfl

theorem timesNumber (ht : t.IsNumber x) {e : DType} (y : ℝ) :
    (t.timesNumber (e := e) y).IsNumber (x * y) := by
  refine ⟨ht.shape, ?_⟩
  rw [← ht.entry]
  exact Grid.get_map _ _ (fun x : ℝ => x * y) (Grid.nil_mem_indices ht.shape)

theorem reduceTo (ht : t.IsNumber x) (ha : l.IsNumber y) : t.reduceTo l.shape = .ok t := by
  have hs : t.grid.shape = l.shape := ht.shape.trans ha.shape.symm
  rw [Tensor.reduceTo, Grid.reduceTo, if_pos hs]
  rfl

theorem onesLike (ht : t.IsNumber x) : t.onesLike.IsNumber 1 := by
  refine ⟨ht.shape, ?_⟩
  simp [Tensor.entry, Tensor.onesLike, Grid.get, Grid.constant, ht.shape, Arithmetic.one]

end IsNumber

end Tensor

end DiffGraph
