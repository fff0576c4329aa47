import DiffGraph.Proofs.Operator.Shapes
import DiffGraph.Proofs.Tensor.Adjoint
import Mathlib.Algebra.Field.Basic

/-!
# Tensors over a field, entry by entry

Over a field every element type has the same elements, nothing is rounded and conjugation is the
identity; the elementary functions are any functions on the field. `HasEntries` describes a tensor
by its shape and by the entry at each position, and every operation has one lemma that gives the
entries of its result. The inner product of two tensors of one shape is the sum of the products of
their entries.
-/

/-- A field in the sense of algebra, not the real or the complex field of an element type. -/
abbrev AlgebraicField (K : Type) : Type := Field K

namespace DiffGraph

variable {K : Type} [AlgebraicField K]

/-- Elementary functions on the elements of a field, without any law. -/
class ElementaryFunctions (K : Type) where
  elementary : Elementary → K → K

/-- The elements of a field as those of every element type. -/
abbrev Scalars (K : Type) : DType → Type := fun _ => K

instance [ElementaryFunctions K] : Arithmetic (Scalars K) where
  zero _ := (0 : K)
  one _ := (1 : K)
  neg x := (-x : K)
  conj x := x
  add x y := (x + y : K)
  mul x y := (x * y : K)
  div x y := (x / y : K)
  elementary f x := ElementaryFunctions.elementary f (x : K)
  cast _ x := x

namespace Tensor

/-- The entry at a position. -/
def entryAt (t : Tensor (Scalars K)) (i : List Nat) : K := t.grid.get (0 : K) i

/-- The sum of all elements. -/
def total (t : Tensor (Scalars K)) : K := (t.grid.data.toList : List K).sum

/-- The sum of the products of the elements of two tensors of the same shape. -/
def inner (d t : Tensor (Scalars K)) : K :=
  (List.zipWith (fun x y : K => x * y) d.grid.data.toList t.grid.data.toList).sum

/-- A tensor of a given shape with given entries. -/
structure HasEntries (t : Tensor (Scalars K)) (s : Shape) (f : List Nat → K) : Prop where
  shape : t.shape = s
  entry : ∀ i ∈ s.indices, t.entryAt i = f i

namespace HasEntries

variable {t l r : Tensor (Scalars K)} {s s' b : Shape} {f g : List Nat → K}

theorem self (t : Tensor (Scalars K)) : t.HasEntries t.shape t.entryAt := ⟨rfl, fun _ _ => rfl⟩

theorem of_shape (h : t.shape = s) : t.HasEntries s t.entryAt := ⟨h, fun _ _ => rfl⟩

theorem congr (ht : t.HasEntries s f) (h : ∀ i ∈ s.indices, f i = g i) : t.HasEntries s g :=
  ⟨ht.shape, fun i hi => (ht.entry i hi).trans (h i hi)⟩

theorem of_project (ht : t.HasEntries s fun i => f (s.project i)) : t.HasEntries s f :=
  ht.congr fun i hi => by rw [Shape.project_self hi]

theorem toList_data (ht : t.HasEntries s f) :
    (t.grid.data.toList : List K) = s.indices.map f := by
  have hs : t.grid.shape = s := ht.shape
  rw [Grid.toList_data (0 : K) t.grid, hs]
  exact List.map_congr_left ht.entry

theorem inner (hl : l.HasEntries s f) (hr : r.HasEntries s g) :
    l.inner r = ∑ i ∈ s.positions, f i * g i := by
  rw [Tensor.inner, hl.toList_data, hr.toList_data, List.zipWith_map, List.zipWith_self,
    Shape.sum_positions]

theorem total (ht : t.HasEntries s f) : t.total = ∑ i ∈ s.positions, f i := by
  rw [Tensor.total, ht.toList_data, Shape.sum_positions]

/-! ## Operations -/

theorem map (ht : t.HasEntries s f) (φ : K → K) : (t.map φ).HasEntries s fun i => φ (f i) := by
  have hs : t.grid.shape = s := ht.shape
  refine ⟨ht.shape, fun i hi => ?_⟩
  rw [← ht.entry i hi]
  exact Grid.get_map _ _ φ (by rwa [hs])

variable [ElementaryFunctions K]

theorem neg (ht : t.HasEntries s f) : t.neg.HasEntries s fun i => -f i := ht.map fun x => -x

theorem conj (ht : t.HasEntries s f) : t.conj.HasEntries s f := ht.map fun x => x

theorem elementary (e : Elementary) (ht : t.HasEntries s f) :
    (t.elementary e).HasEntries s fun i => ElementaryFunctions.elementary e (f i) :=
  ht.map (ElementaryFunctions.elementary e)

theorem twice (ht : t.HasEntries s f) : t.twice.HasEntries s fun i => (1 + 1) * f i :=
  ht.map fun x => (1 + 1) * x

theorem timesNumber (ht : t.HasEntries s f) {e : DType} (x : K) :
    (t.timesNumber (e := e) x).HasEntries s fun i => f i * x := by
  have hs : t.grid.shape = s := ht.shape
  refine ⟨ht.shape, fun i hi => ?_⟩
  rw [← ht.entry i hi]
  exact Grid.get_map _ _ (fun y : K => y * x) (by rwa [hs])

theorem onesLike (ht : t.HasEntries s f) : t.onesLike.HasEntries s fun _ => 1 :=
  ⟨ht.shape, fun i hi => Grid.get_constant (0 : K) 1 (by rwa [ht.shape])⟩

theorem sumAll (ht : t.HasEntries s f) :
    t.sumAll.HasEntries [] fun _ => ∑ i ∈ s.positions, f i := by
  refine ⟨rfl, fun i hi => ?_⟩
  rw [Shape.indices_nil, List.mem_singleton] at hi
  have hsum : t.grid.sum (0 : K) (· + ·) = ∑ i ∈ s.positions, f i := by
    rw [Grid.sum, ← Array.foldl_toList, ht.toList_data, ← List.sum_eq_foldl, Shape.sum_positions]
  rw [hi]
  exact hsum

theorem item (ht : t.HasEntries [] f) : t.item = .ok (f []) := by
  have hrank : t.rank = 0 := by rw [rank, ht.shape, List.length_nil]
  rw [Tensor.item, if_pos hrank, ← ht.entry [] (by simp)]
  rfl

theorem zip (hl : l.HasEntries s f) (hr : r.HasEntries s' g) (hb : s.broadcast s' = some b)
    (φ : DType → K → K → K) :
    ∃ u, Tensor.zip (A := Scalars K) (fun {d} => φ d) l r = .ok u ∧
      u.HasEntries b fun i => φ (l.dtype.join r.dtype) (f (s.project i)) (g (s'.project i)) := by
  have hsl : l.grid.shape = s := hl.shape
  have hsr : r.grid.shape = s' := hr.shape
  have hb' : l.shape.broadcast r.shape = some b := by rw [hl.shape, hr.shape, hb]
  unfold Tensor.zip
  rw [hb']
  refine ⟨_, rfl, rfl, fun i hi => ?_⟩
  rw [← hl.entry _ (Shape.project_mem (Shape.broadcast_left hb) hi),
    ← hr.entry _ (Shape.project_mem (Shape.broadcast_right hb) hi), ← hsl, ← hsr]
  exact Grid.get_zip _ _ _ _ l.grid r.grid hi

theorem add (hl : l.HasEntries s f) (hr : r.HasEntries s' g) (hb : s.broadcast s' = some b) :
    ∃ u, l.add r = .ok u ∧ u.HasEntries b fun i => f (s.project i) + g (s'.project i) :=
  hl.zip hr hb fun _ x y => x + y

theorem mul (hl : l.HasEntries s f) (hr : r.HasEntries s' g) (hb : s.broadcast s' = some b) :
    ∃ u, l.mul r = .ok u ∧ u.HasEntries b fun i => f (s.project i) * g (s'.project i) :=
  hl.zip hr hb fun _ x y => x * y

theorem div (hl : l.HasEntries s f) (hr : r.HasEntries s' g) (hb : s.broadcast s' = some b) :
    ∃ u, l.div r = .ok u ∧ u.HasEntries b fun i => f (s.project i) / g (s'.project i) :=
  hl.zip hr hb fun _ x y => x / y

theorem add_same (hl : l.HasEntries s f) (hr : r.HasEntries s g) :
    ∃ u, l.add r = .ok u ∧ u.HasEntries s fun i => f i + g i := by
  obtain ⟨u, hu, hue⟩ := hl.add hr (Shape.broadcast_self s)
  exact ⟨u, hu, of_project (f := fun i => f i + g i) hue⟩

theorem mul_same (hl : l.HasEntries s f) (hr : r.HasEntries s g) :
    ∃ u, l.mul r = .ok u ∧ u.HasEntries s fun i => f i * g i := by
  obtain ⟨u, hu, hue⟩ := hl.mul hr (Shape.broadcast_self s)
  exact ⟨u, hu, of_project (f := fun i => f i * g i) hue⟩

theorem div_same (hl : l.HasEntries s f) (hr : r.HasEntries s g) :
    ∃ u, l.div r = .ok u ∧ u.HasEntries s fun i => f i / g i := by
  obtain ⟨u, hu, hue⟩ := hl.div hr (Shape.broadcast_self s)
  exact ⟨u, hu, of_project (f := fun i => f i / g i) hue⟩

/-- Bringing a gradient back to the shape of an operand is adjoint to stretching the operand. -/
theorem inner_reduceTo (ht : t.HasEntries s' f) (hr : r.HasEntries s g)
    (hb : s.broadcast s' = some b) (hc : Grid.ComesFrom s s' b) (h : t.reduceTo s = .ok l) :
    l.inner r = ∑ i ∈ b.positions, f (s'.project i) * g (s.project i) := by
  rw [(of_shape (shape_of_reduceTo h)).inner hr]
  have hmap : (t.grid.reduceTo (0 : K) (· + ·) s).map (fun k => Tensor.mk t.dtype k) = .ok l := h
  cases hk : t.grid.reduceTo (0 : K) (· + ·) s with
  | error e =>
      rw [hk] at hmap
      cases hmap
  | ok k =>
      rw [hk] at hmap
      cases hmap
      refine (Grid.inner_reduceTo hb hc ht.shape hk g).trans ?_
      refine Finset.sum_congr rfl fun i hi => ?_
      rw [← ht.entry _ (Shape.project_mem (Shape.broadcast_right hb) (Shape.mem_positions.1 hi))]
      rfl

end HasEntries

/-! ## Inner products -/

section

variable {l r t : Tensor (Scalars K)} [ElementaryFunctions K]

theorem inner_onesLike (h : l.shape = t.shape) : l.onesLike.inner t = t.total := by
  have ht := HasEntries.of_shape h.symm
  rw [(HasEntries.self l).onesLike.inner ht, ht.total]
  exact Finset.sum_congr rfl fun i _ => one_mul _

theorem inner_add (hl : l.shape = t.shape) (hr : r.shape = t.shape) :
    ∃ u, l.add r = .ok u ∧ u.shape = t.shape ∧ u.inner t = l.inner t + r.inner t := by
  have ht := HasEntries.self t
  have hl := HasEntries.of_shape hl
  have hr := HasEntries.of_shape hr
  obtain ⟨u, hu, hue⟩ := hl.add_same hr
  refine ⟨u, hu, hue.shape, ?_⟩
  rw [hue.inner ht, hl.inner ht, hr.inner ht, ← Finset.sum_add_distrib]
  exact Finset.sum_congr rfl fun i _ => add_mul _ _ _

theorem inner_foldlM_add {c total : Tensor (Scalars K)} {cs : List (Tensor (Scalars K))}
    (hc : c.shape = t.shape) (hcs : ∀ d ∈ cs, d.shape = t.shape)
    (hf : cs.foldlM Tensor.add c = .ok total) :
    total.inner t = ((c :: cs).map fun d => d.inner t).sum := by
  induction cs generalizing c with
  | nil =>
      cases hf
      exact (add_zero _).symm
  | cons d cs ih =>
      obtain ⟨u, hu, hus, hinner⟩ := inner_add hc (hcs d List.mem_cons_self)
      rw [List.foldlM_cons, hu] at hf
      rw [ih hus (fun e he => hcs e (List.mem_cons_of_mem d he)) hf, List.map_cons, List.sum_cons,
        hinner, List.map_cons, List.sum_cons, List.map_cons, List.sum_cons, add_assoc]

end

end Tensor

end DiffGraph
