import DiffGraph.Proofs.Tensor.Positions
import Mathlib.Algebra.BigOperators.Ring.Finset

/-!
# Bringing a gradient back is adjoint to broadcasting

Over exact addition an entry of a gradient that is brought back to the shape `s` is the sum of the
entries whose positions project to its own, so each entry of the gradient is counted once. Inner
products with a tensor of shape `s` are therefore those of the gradient with the tensor stretched.
-/

namespace DiffGraph

namespace Grid

open Shape

/-! ## What is summed into an entry -/

/-- The position that a position is summed into: a marked axis has one place. -/
def collapse (marks : List Bool) (i : List Nat) : List Nat :=
  List.zipWith (fun mark k => if mark then 0 else k) marks i

theorem collapse_cons (mark : Bool) (k : Nat) (marks : List Bool) (i : List Nat) :
    collapse (mark :: marks) (k :: i) = (if mark then 0 else k) :: collapse marks i := rfl

theorem flatMap_eq_of_unique {α β : Type} {xs : List α} {f : α → List β} {x : α} (hn : xs.Nodup)
    (hx : x ∈ xs) (hf : ∀ y ∈ xs, y ≠ x → f y = []) : xs.flatMap f = f x := by
  induction xs with
  | nil => cases hx
  | cons y xs ih =>
      obtain ⟨hy, hn⟩ := List.nodup_cons.1 hn
      rw [List.flatMap_cons]
      rcases List.mem_cons.1 hx with rfl | hx
      · have hrest : xs.flatMap f = [] := by
          rw [List.flatMap_eq_nil_iff]
          intro z hz
          refine hf z (List.mem_cons_of_mem x hz) ?_
          rintro rfl
          exact hy hz
        rw [hrest, List.append_nil]
      · have hyx : y ≠ x := by
          rintro rfl
          exact hy hx
        rw [hf y List.mem_cons_self hyx, List.nil_append]
        exact ih hn hx fun z hz => hf z (List.mem_cons_of_mem y hz)

theorem filter_map_cons (marks : List Bool) (mark : Bool) (k l : Nat) (j : List Nat)
    (is : List (List Nat)) (hl : (if mark then 0 else k) = l) :
    ((is.map (k :: ·)).filter fun i => collapse (mark :: marks) i = l :: j) =
      (is.filter fun i => collapse marks i = j).map (k :: ·) := by
  rw [List.filter_map]
  congr 2
  funext i
  simp [collapse_cons, hl]

/-- The positions that are summed into a position are those that collapse to it. -/
theorem fiber_eq_filter {t : Shape} {marks : List Bool} (hl : marks.length = t.length)
    {j : List Nat} (hj : j ∈ (keptShape t marks).indices) :
    fiber t marks j = t.indices.filter fun i => collapse marks i = j := by
  induction t generalizing marks j with
  | nil =>
      rw [List.length_eq_zero_iff.1 hl] at hj ⊢
      have hnil : j = [] := by simpa [keptShape] using hj
      rw [hnil]
      rfl
  | cons n t ih =>
      cases marks with
      | nil => cases hl
      | cons mark marks =>
          have hl' : marks.length = t.length := Nat.succ.inj hl
          rw [keptShape, mem_indices_iff] at hj
          cases hj with
          | @cons l _ j _ hk hj =>
              have hfiber := ih hl' (mem_indices_iff.2 hj)
              rw [indices_cons, List.filter_flatMap]
              cases mark with
              | true =>
                  have hzero : l = 0 := by simpa using hk
                  rw [fiber, hfiber, hzero]
                  exact List.flatMap_congr fun k _ =>
                    (filter_map_cons marks true k 0 j (indices t) rfl).symm
              | false =>
                  rw [fiber, hfiber]
                  have hmem : l ∈ List.range n := List.mem_range.2 (by simpa using hk)
                  rw [flatMap_eq_of_unique List.nodup_range hmem]
                  · exact (filter_map_cons marks false l l j (indices t) rfl).symm
                  · intro k _ hkl
                    rw [List.filter_eq_nil_iff]
                    intro i hi
                    obtain ⟨i, -, rfl⟩ := List.mem_map.1 hi
                    simp [collapse_cons, hkl]

section

variable {M : Type} [AddCommMonoid M]

theorem get_sumAxes (g : Grid M) {marks : List Bool} (hl : marks.length = g.shape.length)
    {j : List Nat} (hj : j ∈ (keptShape g.shape marks).indices) :
    (g.sumAxes 0 (· + ·) marks).get 0 j =
      ∑ i ∈ g.shape.positions with collapse marks i = j, g.get 0 i := by
  rw [sumAxes, get_ofFn 0 _ hj, fiber_eq_filter hl hj, ← List.sum_eq_foldl, positions,
    ← List.sum_toFinset _ (g.shape.nodup_indices.filter _), List.toFinset_filter]
  simp only [decide_eq_true_eq]

end

/-! ## The axes that broadcasting has stretched -/

theorem collapse_append {lead : Shape} (marks : List Bool) {t : Shape} {i : List Nat}
    (hi : i ∈ (lead ++ t : Shape).indices) :
    collapse (List.replicate lead.length true ++ marks) i =
      List.replicate lead.length 0 ++ collapse marks (i.drop lead.length) := by
  rw [mem_indices_iff] at hi
  induction lead generalizing i with
  | nil => rfl
  | cons n lead ih =>
      cases hi with
      | @cons k _ i _ _ hi =>
          rw [List.length_cons, List.replicate_succ, List.replicate_succ, List.cons_append,
            collapse_cons, ih hi]
          rfl

theorem collapse_stretched {s t : Shape} (hf : List.Forall₂ AxisFits s t) {i : List Nat}
    (hi : i ∈ t.indices) :
    collapse (List.zipWith (fun m n => n == 1 && m != 1) t s) i = s.clip i := by
  rw [mem_indices_iff] at hi
  induction hf generalizing i with
  | nil => rfl
  | @cons m n s t hm _ ih =>
      cases hi with
      | @cons k _ i _ hk hi =>
          rw [List.zipWith_cons_cons, collapse_cons, clip_cons, ih hi]
          congr 1
          by_cases h1 : m = 1
          · by_cases hn : n = 1
            · simp [h1, hn, Nat.lt_one_iff.1 (hn ▸ hk)]
            · simp [h1, hn]
          · simp [h1]

theorem offset_replicate (k : Nat) (s : Shape) (i : List Nat) :
    offset (List.replicate k 1 ++ s) (List.replicate k 0 ++ i) = offset s i := by
  induction k with
  | zero => rfl
  | succ k ih =>
      rw [List.replicate_succ, List.replicate_succ, List.cons_append, List.cons_append,
        offset_cons, ih, Nat.zero_mul, Nat.zero_add]

theorem mem_indices_replicate (k : Nat) {s : Shape} {i : List Nat} (hi : i ∈ s.indices) :
    List.replicate k 0 ++ i ∈ (List.replicate k 1 ++ s : Shape).indices := by
  rw [mem_indices_iff] at hi ⊢
  induction k with
  | zero => exact hi
  | succ k ih =>
      rw [List.replicate_succ, List.replicate_succ]
      exact .cons Nat.zero_lt_one ih

section

variable {M : Type} [AddCommMonoid M]

theorem keptShape_stretchedAxes {s lead t : Shape} (hf : List.Forall₂ AxisFits s t) :
    keptShape (lead ++ t) (stretchedAxes (lead ++ t) s) = List.replicate lead.length 1 ++ s := by
  rw [stretchedAxes_append hf.length_eq, keptShape_append, keptShape_zipWith hf]

theorem get_reshape_sumAxes {s lead t : Shape} (hf : List.Forall₂ AxisFits s t) {g : Grid M}
    (hg : g.shape = lead ++ t)
    (hsize : (g.sumAxes 0 (· + ·) (stretchedAxes g.shape s)).shape.size = s.size) {j : List Nat}
    (hj : j ∈ s.indices) :
    ((g.sumAxes 0 (· + ·) (stretchedAxes g.shape s)).reshape s hsize).get 0 j =
      ∑ i ∈ (lead ++ t : Shape).positions with s.project i = j, g.get 0 i := by
  have hl := hf.length_eq
  have hmarks : stretchedAxes g.shape s = List.replicate lead.length true ++
      List.zipWith (fun m n => n == 1 && m != 1) t s := hg ▸ stretchedAxes_append hl
  have hkept : keptShape g.shape (stretchedAxes g.shape s) =
      List.replicate lead.length 1 ++ s := hg ▸ keptShape_stretchedAxes hf
  have hread : ((g.sumAxes 0 (· + ·) (stretchedAxes g.shape s)).reshape s hsize).get 0 j =
      (g.sumAxes 0 (· + ·) (stretchedAxes g.shape s)).get 0
        (List.replicate lead.length 0 ++ j) := by
    rw [get, get, shape_sumAxes, hkept, offset_replicate]
    rfl
  have hlength : (stretchedAxes g.shape s).length = g.shape.length := by
    rw [hmarks, hg]
    simp [hl]
  rw [hread, get_sumAxes g hlength (hkept ▸ mem_indices_replicate lead.length hj), hg]
  refine Finset.sum_congr (Finset.filter_congr fun i hi => ?_) fun _ _ => rfl
  obtain ⟨hproject, hdrop⟩ := project_of_append hl (mem_positions.1 hi)
  rw [← hg, hmarks, collapse_append _ (mem_positions.1 hi), collapse_stretched hf hdrop, hproject,
    List.append_right_inj]

/-- A gradient that is brought back to the shape that was stretched to its own: an entry is the sum
of the entries at the positions that read it. -/
theorem get_reduceTo {s b : Shape} (h : s.broadcast b = some b) {g g' : Grid M} (hg : g.shape = b)
    (hr : g.reduceTo 0 (· + ·) s = .ok g') :
    g'.shape = s ∧ ∀ j ∈ s.indices,
      g'.get 0 j = ∑ i ∈ b.positions with s.project i = j, g.get 0 i := by
  obtain ⟨lead, t, rfl, hf⟩ := broadcast_eq_right_iff.1 h
  have hl := hf.length_eq
  unfold reduceTo rank at hr
  by_cases hs : g.shape = s
  · rw [if_pos hs] at hr
    cases hr
    refine ⟨hs, fun j hj => ?_⟩
    rw [← hg, hs, Finset.sum_filter, Finset.sum_eq_single_of_mem j (mem_positions.2 hj)]
    · rw [if_pos (project_self hj)]
    · intro i hi hij
      rw [project_self (mem_positions.1 hi), if_neg hij]
  · have hlt : ¬ g.shape.length < s.length := by
      rw [hg, List.length_append]
      omega
    rw [if_neg hs, if_neg hlt] at hr
    have hsum : g.summedFor 0 (· + ·) s = g.sumAxes 0 (· + ·) (stretchedAxes g.shape s) := by
      refine if_pos ?_
      by_contra hno
      have hnot : true ∉ stretchedAxes (lead ++ t) s := by simpa [hg] using hno
      have hlead : lead.length = 0 := by
        by_contra hne
        rw [stretchedAxes_append hl] at hnot
        exact hnot (List.mem_append_left _ (List.mem_replicate.2 ⟨hne, rfl⟩))
      have hkept : keptShape (lead ++ t) (stretchedAxes (lead ++ t) s) = _ :=
        keptShape_stretchedAxes hf
      rw [keptShape_of_not_mem hnot, hlead] at hkept
      exact hs (hg.trans hkept)
    rw [hsum, reshape?] at hr
    split at hr
    · rename_i hsize
      cases hr
      exact ⟨rfl, fun j hj => get_reshape_sumAxes hf hg hsize hj⟩
    · cases hr

end

/-! ## Inner products -/

section

variable {R : Type} [Semiring R]

/-- The shape of a gradient from which the shape `s` of an operand can be reached: the shape `b` of
the result, or fewer axes than `s` where `s` is not stretched. Where `s` is empty anything goes. -/
def ComesFrom (s t b : Shape) : Prop := t = b ∨ (s = b ∧ t.length < s.length) ∨ 0 ∈ s

theorem comesFrom_of_dotFits {s t b : Shape} (hb : s.broadcast t = some b) (h : DotFits s t) :
    ComesFrom s t b := by
  rcases h with rfl | ⟨-, h0⟩ | ⟨-, ht⟩ | ⟨hl, hs⟩
  · rw [broadcast_self, Option.some.injEq] at hb
    exact .inl hb
  · exact .inr (.inr (List.of_mem_zip h0).1)
  · exact .inl (Option.some.inj (ht.symm.trans hb))
  · rw [broadcast_comm] at hb
    exact .inr (.inl ⟨Option.some.inj (hs.symm.trans hb), hl⟩)

theorem get_reduceTo_of_length_lt {s : Shape} {g g' : Grid R} (hl : g.shape.length < s.length)
    (hr : g.reduceTo 0 (· + ·) s = .ok g') {j : List Nat} (hj : j ∈ s.indices) :
    g'.get 0 j = g.get 0 (g.shape.project j) := by
  have hs : g.shape ≠ s := by
    intro hs
    rw [hs] at hl
    exact Nat.lt_irrefl _ hl
  unfold reduceTo rank at hr
  rw [if_neg hs, if_pos hl] at hr
  split at hr
  · cases hr
    exact get_spread 0 g hj
  · cases hr

/-- Bringing a gradient back to the shape of an operand is adjoint to stretching the operand. -/
theorem inner_reduceTo {s t b : Shape} (hb : s.broadcast t = some b) (hst : ComesFrom s t b)
    {g g' : Grid R} (hg : g.shape = t) (hr : g.reduceTo 0 (· + ·) s = .ok g') (u : List Nat → R) :
    ∑ j ∈ s.positions, g'.get 0 j * u j =
      ∑ i ∈ b.positions, g.get 0 (t.project i) * u (s.project i) := by
  have hsb := broadcast_left hb
  rcases hst with rfl | ⟨rfl, hl⟩ | hs
  · obtain ⟨-, hget⟩ := get_reduceTo hsb hg hr
    have hmaps : ∀ i ∈ t.positions, s.project i ∈ s.positions := fun i hi =>
      mem_positions.2 (project_mem hsb (mem_positions.1 hi))
    rw [← Finset.sum_fiberwise_of_maps_to hmaps]
    refine Finset.sum_congr rfl fun j hj => ?_
    rw [hget j (mem_positions.1 hj), Finset.sum_mul]
    refine Finset.sum_congr rfl fun i hi => ?_
    obtain ⟨hi, hij⟩ := Finset.mem_filter.1 hi
    rw [project_self (mem_positions.1 hi), hij]
  · refine Finset.sum_congr rfl fun j hj => ?_
    rw [← hg] at hl ⊢
    rw [get_reduceTo_of_length_lt hl hr (mem_positions.1 hj), project_self (mem_positions.1 hj)]
  · have hempty : b.positions = ∅ := by
      rw [Finset.eq_empty_iff_forall_notMem]
      intro i hi
      have hi' := mem_positions.2 (project_mem hsb (mem_positions.1 hi))
      rw [positions_eq_empty hs] at hi'
      exact Finset.notMem_empty _ hi'
    rw [hempty, positions_eq_empty hs, Finset.sum_empty, Finset.sum_empty]

end

end Grid

end DiffGraph
