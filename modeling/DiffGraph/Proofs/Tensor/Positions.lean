import DiffGraph.Proofs.Tensor.Reduce
import Mathlib.Algebra.BigOperators.Group.Finset.Basic
import Mathlib.Data.List.Nodup

/-!
# Positions

The entries of a grid are read by position. A position of a shape lies below the extents, axis by
axis; the positions in row-major order have the offsets from zero on, so a grid that is made from
its entries holds them, and the data of a grid is the list of its entries. Where a shape is
stretched, every position of the result projects to one of the shape.
-/

namespace DiffGraph

namespace Shape

/-! ## Positions of a shape -/

theorem mem_indices_iff {s : Shape} {i : List Nat} :
    i ∈ s.indices ↔ List.Forall₂ (· < ·) i s := by
  induction s generalizing i with
  | nil => simp
  | cons n s ih =>
      rw [indices_cons, List.mem_flatMap]
      constructor
      · rintro ⟨k, hk, hi⟩
        obtain ⟨j, hj, rfl⟩ := List.mem_map.1 hi
        exact .cons (List.mem_range.1 hk) (ih.1 hj)
      · intro hi
        cases hi with
        | @cons k _ j _ hk hj =>
            exact ⟨k, List.mem_range.2 hk, List.mem_map_of_mem (ih.2 hj)⟩

theorem nodup_indices (s : Shape) : s.indices.Nodup := by
  induction s with
  | nil => exact List.nodup_singleton _
  | cons n s ih =>
      rw [indices_cons, List.nodup_flatMap]
      constructor
      · intro k _
        exact ih.map (List.cons_injective)
      · refine List.nodup_range.pairwise_of_forall_ne ?_
        intro k _ l _ hkl
        rw [Function.onFun, List.disjoint_left]
        intro i hk hl
        obtain ⟨j, -, rfl⟩ := List.mem_map.1 hk
        obtain ⟨j', -, hj'⟩ := List.mem_map.1 hl
        exact hkl (List.cons.inj hj').1.symm

theorem flatMap_range_mul (n m : Nat) :
    ((List.range n).flatMap fun k => (List.range m).map (k * m + ·)) = List.range (n * m) := by
  induction n with
  | zero => simp
  | succ n ih =>
      rw [List.range_succ, List.flatMap_append, ih, List.flatMap_singleton, Nat.succ_mul,
        List.range_add]

/-- The positions are listed in the order of their offsets. -/
theorem map_offset_indices (s : Shape) : s.indices.map s.offset = List.range s.size := by
  induction s with
  | nil => rfl
  | cons n s ih =>
      rw [size_cons, ← flatMap_range_mul, indices_cons, List.map_flatMap]
      refine List.flatMap_congr fun k _ => ?_
      rw [← ih, List.map_map, List.map_map]
      rfl

theorem getElem?_indices_offset {s : Shape} {i : List Nat} (hi : i ∈ s.indices) :
    s.indices[s.offset i]? = some i := by
  obtain ⟨k, hk⟩ := List.getElem?_of_mem hi
  have hlt : k < s.size := by
    rw [← length_indices]
    exact (List.getElem?_eq_some_iff.1 hk).1
  have hoffset : (s.indices.map s.offset)[k]? = some k := by
    rw [map_offset_indices, List.getElem?_range hlt]
  rw [List.getElem?_map, hk, Option.map_some, Option.some.injEq] at hoffset
  rw [hoffset, hk]

theorem offset_lt {s : Shape} {i : List Nat} (hi : i ∈ s.indices) : s.offset i < s.size := by
  rw [← length_indices]
  exact (List.getElem?_eq_some_iff.1 (getElem?_indices_offset hi)).1

/-- The positions as a finite set, to sum over. -/
def positions (s : Shape) : Finset (List Nat) := s.indices.toFinset

@[simp] theorem mem_positions {s : Shape} {i : List Nat} : i ∈ s.positions ↔ i ∈ s.indices :=
  List.mem_toFinset

theorem sum_positions {M : Type} [AddCommMonoid M] (s : Shape) (f : List Nat → M) :
    ∑ i ∈ s.positions, f i = (s.indices.map f).sum :=
  List.sum_toFinset f s.nodup_indices

@[simp] theorem positions_nil : positions [] = {[]} := rfl

theorem positions_eq_empty {s : Shape} (h : 0 ∈ s) : s.positions = ∅ := by
  rw [← size_eq_zero_iff, ← length_indices, List.length_eq_zero_iff] at h
  rw [positions, h, List.toFinset_nil]

/-! ## Projection -/

/-- The place that is read on each axis of a shape of the same rank. -/
def clip (s : Shape) (i : List Nat) : List Nat :=
  List.zipWith (fun n k => if n = 1 then 0 else k) s i

theorem clip_cons (n k : Nat) (s : Shape) (i : List Nat) :
    clip (n :: s) (k :: i) = (if n = 1 then 0 else k) :: clip s i := rfl

theorem project_of_append {s lead t : Shape} (hl : s.length = t.length) {i : List Nat}
    (hi : i ∈ (lead ++ t : Shape).indices) :
    s.project i = s.clip (i.drop lead.length) ∧ i.drop lead.length ∈ t.indices := by
  rw [mem_indices_iff] at hi
  constructor
  · have hlength := hi.length_eq
    rw [List.length_append] at hlength
    rw [project, clip, hlength, hl, Nat.add_sub_cancel]
  · exact mem_indices_iff.2 (List.forall₂_drop_append i lead t hi)

theorem clip_mem {s t : Shape} (hf : List.Forall₂ AxisFits s t) {i : List Nat}
    (hi : i ∈ t.indices) : s.clip i ∈ s.indices := by
  rw [mem_indices_iff] at hi ⊢
  induction hf generalizing i with
  | nil => exact .nil
  | @cons m n s t hm _ ih =>
      cases hi with
      | @cons k _ i _ hk hi =>
          rw [clip_cons]
          refine .cons ?_ (ih hi)
          split
          · rename_i h1
            rw [h1]
            exact Nat.zero_lt_one
          · rename_i h1
            rw [hm.resolve_right h1]
            exact hk

theorem clip_self {s : Shape} {i : List Nat} (hi : i ∈ s.indices) : s.clip i = i := by
  rw [mem_indices_iff] at hi
  induction hi with
  | nil => rfl
  | @cons k n i s hk _ ih =>
      rw [clip_cons, ih]
      split
      · rename_i h1
        rw [h1, Nat.lt_one_iff] at hk
        rw [hk]
      · rfl

/-- A position of a shape that was stretched from `s` reads a position of `s`. -/
theorem project_mem {s b : Shape} (h : s.broadcast b = some b) {i : List Nat}
    (hi : i ∈ b.indices) : s.project i ∈ s.indices := by
  obtain ⟨lead, t, rfl, hf⟩ := broadcast_eq_right_iff.1 h
  obtain ⟨hproject, hdrop⟩ := project_of_append hf.length_eq hi
  rw [hproject]
  exact clip_mem hf hdrop

theorem project_self {s : Shape} {i : List Nat} (hi : i ∈ s.indices) : s.project i = i := by
  have hi' : i ∈ ([] ++ s : Shape).indices := hi
  rw [(project_of_append rfl hi').1]
  exact clip_self hi

end Shape

namespace Grid

open Shape

variable {α β γ : Type}

/-! ## Reading entries -/

/-- A grid that is made from its entries holds them. -/
theorem get_ofFn (outside : α) {s : Shape} (f : List Nat → α) {i : List Nat} (hi : i ∈ s.indices) :
    (ofFn s f).get outside i = f i := by
  rw [get, shape_ofFn, data_ofFn, Array.getD_eq_getD_getElem?, List.getElem?_toArray,
    List.getElem?_map, getElem?_indices_offset hi]
  rfl

/-- The data of a grid is the list of its entries. -/
theorem toList_data (outside : α) (g : Grid α) :
    g.data.toList = g.shape.indices.map (g.get outside) := by
  have hget : g.get outside = (fun k => g.data.getD k outside) ∘ g.shape.offset := rfl
  rw [hget, ← List.map_map, map_offset_indices]
  refine List.ext_getElem ?_ fun k hk _ => ?_
  · rw [List.length_map, List.length_range, Array.length_toList, g.size_data]
  · rw [List.getElem_map, List.getElem_range, Array.getElem_toList]
    have hk' : k < g.data.size := by simpa using hk
    simp [hk']

theorem get_map (outside : α) (outside' : β) (f : α → β) {g : Grid α} {i : List Nat}
    (hi : i ∈ g.shape.indices) : (g.map f).get outside' i = f (g.get outside i) := by
  have hlt : g.shape.offset i < g.data.size := by
    rw [g.size_data]
    exact offset_lt hi
  simp [get, hlt]

theorem get_constant (outside a : α) {s : Shape} {i : List Nat} (hi : i ∈ s.indices) :
    (constant s a).get outside i = a := by
  simp [get, constant, offset_lt hi]

theorem get_zip (outside : α) (outside' : β) (outside'' : γ) (f : α → β → γ) {s : Shape}
    (g : Grid α) (h : Grid β) {i : List Nat} (hi : i ∈ s.indices) :
    (zip outside outside' f s g h).get outside'' i =
      f (g.get outside (g.shape.project i)) (h.get outside' (h.shape.project i)) :=
  get_ofFn outside'' _ hi

theorem get_spread (outside : α) {s : Shape} (g : Grid α) {i : List Nat} (hi : i ∈ s.indices) :
    (g.spread outside s).get outside i = g.get outside (g.shape.project i) :=
  get_ofFn outside _ hi

end Grid

end DiffGraph
