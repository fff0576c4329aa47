import DiffGraph.Proofs.Tensor.Adjoint

/-!
# Stretching in stages

A shape that is stretched to a second one and that to a third is stretched to the third, and a
position of the third one reads the same place on the way through the second as at once. A gradient
can therefore be brought back in stages.
-/

namespace DiffGraph

namespace Shape

/-- A shape can be stretched to another one: it is put at the last axes, and each of its axes has
the extent of the other shape there or the extent 1. -/
def Stretches (s b : Shape) : Prop := ∃ lead t, b = lead ++ t ∧ List.Forall₂ AxisFits s t

theorem stretches_iff {s b : Shape} : s.Stretches b ↔ s.broadcast b = some b :=
  broadcast_eq_right_iff.symm

instance (s b : Shape) : Decidable (s.Stretches b) := decidable_of_iff _ stretches_iff.symm

theorem AxisFits.trans {m n k : Nat} (h : AxisFits m n) (h' : AxisFits n k) : AxisFits m k := by
  rcases h with rfl | h
  · exact h'
  · exact .inr h

theorem forall₂_axisFits_trans {s t u : Shape} (h : List.Forall₂ AxisFits s t)
    (h' : List.Forall₂ AxisFits t u) : List.Forall₂ AxisFits s u := by
  induction h generalizing u with
  | nil => exact h'
  | cons hm _ ih =>
      cases h' with
      | cons hm' h' => exact .cons (hm.trans hm') (ih h')

/-- An axis that is read at its only place is read there on the way through another shape. -/
theorem clip_clip {s t : Shape} (h : List.Forall₂ AxisFits s t) (i : List Nat) :
    s.clip (t.clip i) = s.clip i := by
  induction h generalizing i with
  | nil => rfl
  | @cons m n s t hm _ ih =>
      cases i with
      | nil => rfl
      | cons k i =>
          rw [clip_cons, clip_cons, clip_cons, ih]
          congr 1
          rcases hm with rfl | rfl
          · split <;> rfl
          · rfl

/-- The last axes of a shape in between are put at the last axes of the result. -/
theorem Stretches.exists_split {lead t b : Shape} (h : (lead ++ t : Shape).Stretches b) :
    ∃ lead' u v : Shape, b = lead' ++ (u ++ v) ∧ u.length = lead.length ∧
      List.Forall₂ AxisFits (lead ++ t) (u ++ v) ∧ List.Forall₂ AxisFits t v := by
  obtain ⟨lead', w, rfl, hf⟩ := h
  have hl := hf.length_eq
  rw [List.length_append] at hl
  have hw : w.take lead.length ++ w.drop lead.length = w := List.take_append_drop _ _
  refine ⟨lead', w.take lead.length, w.drop lead.length, by rw [hw], ?_, by rwa [hw], ?_⟩
  · rw [List.length_take]
    omega
  · have hd := List.forall₂_drop lead.length hf
    rwa [List.drop_left] at hd

theorem Stretches.trans {s m b : Shape} (hs : s.Stretches m) (hm : m.Stretches b) :
    s.Stretches b := by
  obtain ⟨lead, t, rfl, hf⟩ := hs
  obtain ⟨lead', u, v, rfl, -, -, hv⟩ := hm.exists_split
  exact ⟨lead' ++ u, v, (List.append_assoc ..).symm, forall₂_axisFits_trans hf hv⟩

/-- The position that is read on the way through a shape in between. -/
theorem project_project {s m b : Shape} (hs : s.Stretches m) (hm : m.Stretches b) {i : List Nat}
    (hi : i ∈ b.indices) : s.project (m.project i) = s.project i := by
  have hmem := project_mem (stretches_iff.1 hm) hi
  obtain ⟨lead, t, rfl, hf⟩ := hs
  obtain ⟨lead', u, v, rfl, hu, huv, hv⟩ := hm.exists_split
  have hl : lead'.length + lead.length = (lead' ++ u).length := by rw [List.length_append, hu]
  have hdrop : (clip (lead ++ t) (i.drop lead'.length)).drop lead.length =
      clip t (i.drop (lead' ++ u).length) := by
    rw [clip, List.drop_zipWith, List.drop_left, List.drop_drop, hl, clip]
  have hi' : i ∈ ((lead' ++ u) ++ v : Shape).indices := by rwa [List.append_assoc]
  have hst := hf.length_eq.trans hv.length_eq
  rw [(project_of_append hf.length_eq hmem).1, (project_of_append huv.length_eq hi).1, hdrop,
    clip_clip hf, (project_of_append hst hi').1]

end Shape

namespace Grid

open Shape

/-- A grid is given by its shape and its entries. -/
theorem eq_of_get {α : Type} (outside : α) {g h : Grid α} (hs : g.shape = h.shape)
    (hget : ∀ i ∈ g.shape.indices, g.get outside i = h.get outside i) : g = h := by
  have hdata : g.data.toList = h.data.toList := by
    rw [toList_data outside, toList_data outside, ← hs]
    exact List.map_congr_left hget
  obtain ⟨s, data, hsize⟩ := g
  obtain ⟨s', data', hsize'⟩ := h
  cases hs
  cases Array.toList_inj.1 hdata
  rfl

/-- The sum of the products of the entries of two grids. -/
def inner {R : Type} [Mul R] [Zero R] [Add R] (g x : Grid R) : R :=
  (List.zipWith (· * ·) g.data.toList x.data.toList).sum

section

variable {R : Type} [Semiring R]

theorem inner_eq_sum {g x : Grid R} (h : x.shape = g.shape) :
    g.inner x = ∑ i ∈ g.shape.positions, g.get 0 i * x.get 0 i := by
  rw [sum_positions, inner, toList_data 0 g, toList_data 0 x, h, List.zipWith_map,
    List.zipWith_self]

end

section

variable {M : Type} [AddCommMonoid M]

/-- A gradient can be brought back to a shape that was stretched to its own, and an entry is then
the sum of the entries at the positions that read it. -/
theorem reduceTo_of_stretches {s : Shape} {g : Grid M} (h : s.Stretches g.shape) :
    ∃ g', g.reduceTo 0 (· + ·) s = .ok g' ∧ g'.shape = s ∧ ∀ j ∈ s.indices,
      g'.get 0 j = ∑ i ∈ g.shape.positions with s.project i = j, g.get 0 i := by
  have hb := stretches_iff.1 h
  obtain ⟨g', hr, -⟩ := reduceTo_eq_ok 0 (· + ·) (reducible_of_broadcast hb)
  exact ⟨g', hr, get_reduceTo hb rfl hr⟩

/-- A gradient that is brought back in two stages is the one that is brought back at once. -/
theorem reduceTo_reduceTo {s m : Shape} {g : Grid M} (hs : s.Stretches m)
    (hm : m.Stretches g.shape) :
    (g.reduceTo 0 (· + ·) m >>= fun k => k.reduceTo 0 (· + ·) s) = g.reduceTo 0 (· + ·) s := by
  obtain ⟨k, hk, rfl, hgetk⟩ := reduceTo_of_stretches hm
  obtain ⟨k', hk', hshape', hgetk'⟩ := reduceTo_of_stretches hs
  obtain ⟨g', hg', hshape, hget⟩ := reduceTo_of_stretches (hs.trans hm)
  rw [hk, hg']
  refine hk'.trans (congrArg Except.ok (eq_of_get 0 (hshape'.trans hshape.symm) fun j hj => ?_))
  rw [hshape'] at hj
  have hthrough : ∀ i ∈ g.shape.positions, s.project (k.shape.project i) = s.project i :=
    fun i hi => project_project hs hm (mem_positions.1 hi)
  have hmaps : ∀ i ∈ g.shape.positions.filter fun i => s.project i = j,
      k.shape.project i ∈ k.shape.positions.filter fun l => s.project l = j := by
    intro i hi
    obtain ⟨hi, hij⟩ := Finset.mem_filter.1 hi
    have hmem := project_mem (stretches_iff.1 hm) (mem_positions.1 hi)
    exact Finset.mem_filter.2 ⟨mem_positions.2 hmem, (hthrough i hi).trans hij⟩
  calc k'.get 0 j
      = ∑ l ∈ k.shape.positions with s.project l = j, k.get 0 l := hgetk' j hj
    _ = ∑ l ∈ k.shape.positions with s.project l = j,
          ∑ i ∈ g.shape.positions with k.shape.project i = l, g.get 0 i :=
        Finset.sum_congr rfl fun l hl =>
          hgetk l (mem_positions.1 (Finset.mem_filter.1 hl).1)
    _ = ∑ i ∈ g.shape.positions with s.project i = j, g.get 0 i := by
        rw [← Finset.sum_fiberwise_of_maps_to hmaps]
        refine Finset.sum_congr rfl fun l hl => Finset.sum_congr ?_ fun _ _ => rfl
        rw [Finset.filter_filter]
        refine Finset.filter_congr fun i hi => ⟨?_, And.right⟩
        rintro rfl
        exact ⟨(hthrough i hi).symm.trans (Finset.mem_filter.1 hl).2, rfl⟩
    _ = g'.get 0 j := (hget j hj).symm

end

section

variable {R : Type} [CommRing R]

theorem inner_reduceTo_spread {s : Shape} {g g' x : Grid R} (h : s.Stretches g.shape)
    (hr : g.reduceTo 0 (· + ·) s = .ok g') (hx : x.shape = s) :
    g'.inner x = g.inner (x.spread 0 g.shape) := by
  have hb := stretches_iff.1 h
  obtain ⟨hshape, -⟩ := get_reduceTo hb rfl hr
  rw [inner_eq_sum (hx.trans hshape.symm), inner_eq_sum (shape_spread 0 g.shape x), hshape,
    inner_reduceTo hb (.inl rfl) rfl hr]
  refine Finset.sum_congr rfl fun i hi => ?_
  rw [project_self (mem_positions.1 hi), get_spread 0 x (mem_positions.1 hi), hx]

/-- Bringing a gradient back to a shape that was stretched to its own succeeds with that shape. An
entry is the sum of the entries of the gradient whose positions lead to its own, and every position
of the gradient leads to one. It is adjoint to stretching, and can be done in stages. -/
theorem reduceTo_adjoint_spread {M : Type} [AddCommMonoid M] {s b : Shape} (h : s.Stretches b) :
    (∀ g : Grid M, g.shape = b → ∃ g', g.reduceTo 0 (· + ·) s = .ok g' ∧ g'.shape = s ∧
      ∀ j ∈ s.indices, g'.get 0 j = ∑ i ∈ b.positions with s.project i = j, g.get 0 i) ∧
    (∀ i ∈ b.indices, s.project i ∈ s.indices) ∧
    (∀ g : Grid R, g.shape = b → ∃ g', g.reduceTo 0 (· + ·) s = .ok g' ∧
      ∀ x : Grid R, x.shape = s → g'.inner x = g.inner (x.spread 0 b)) ∧
    ∀ (g : Grid M) (m : Shape), g.shape = b → s.Stretches m → m.Stretches b →
      (g.reduceTo 0 (· + ·) m >>= fun k => k.reduceTo 0 (· + ·) s) = g.reduceTo 0 (· + ·) s := by
  refine ⟨?_, fun i hi => project_mem (stretches_iff.1 h) hi, ?_, ?_⟩
  · rintro g rfl
    exact reduceTo_of_stretches h
  · rintro g rfl
    obtain ⟨g', hr, -⟩ := reduceTo_of_stretches h
    exact ⟨g', hr, fun x hx => inner_reduceTo_spread h hr hx⟩
  · rintro g m rfl hs hm
    exact reduceTo_reduceTo hs hm

/-- Three rows in two layers, of which each row is summed to one entry. -/
theorem reduceTo_rows_of_layers :
    let g : Grid Int := .ofFn [2, 3, 4] fun i => (offset [2, 3, 4] i : Int)
    Stretches [3, 1] [2, 3, 4] ∧ Stretches [3, 1] [3, 4] ∧ Stretches [3, 4] [2, 3, 4] ∧
      ∃ g', g.reduceTo 0 (· + ·) [3, 1] = .ok g' ∧ g'.shape = [3, 1] ∧ g'.get 0 [1, 0] = 92 ∧
        (g.reduceTo 0 (· + ·) [3, 4] >>= fun k => k.reduceTo 0 (· + ·) [3, 1]) = .ok g' := by
  intro g
  have h : Stretches [3, 1] [2, 3, 4] := by decide
  have hs : Stretches [3, 1] [3, 4] := by decide
  have hm : Stretches [3, 4] [2, 3, 4] := by decide
  obtain ⟨hreduce, -, -, hstages⟩ := reduceTo_adjoint_spread (R := Int) (M := Int) h
  obtain ⟨g', hr, hshape, hget⟩ := hreduce g rfl
  refine ⟨h, hs, hm, g', hr, hshape, ?_, (hstages g [3, 4] rfl hs hm).trans hr⟩
  rw [hget [1, 0] (by decide)]
  decide +kernel

end

end Grid

end DiffGraph
