import DiffGraph.Proofs.Tensor.Broadcast

/-!
# When a gradient can be brought to an operand's shape

A gradient that has the shape of a broadcast result can be brought back to the shape of each
operand. A gradient that has the shape of the *other* operand cannot always: it is summed over the
axes that it has and the operand lacks, and spread as a whole if it has fewer axes, but an axis
that only the operand has is not filled in when the ranks are equal.
-/

namespace DiffGraph

/-- The axes of a gradient do not match those of an operand. -/
def TensorError.Misfit (e : TensorError) : Prop :=
  (∃ n s, e = .notReshapable n s) ∨ ∃ t s, e = .notSpreadable t s

namespace Grid

open Shape

variable {α : Type}

/-! ## The shape after the sums -/

theorem keptShape_append (lead t : Shape) (marks : List Bool) :
    keptShape (lead ++ t) (List.replicate lead.length true ++ marks) =
      List.replicate lead.length 1 ++ keptShape t marks := by
  induction lead with
  | nil => rfl
  | cons n lead ih =>
      rw [List.cons_append, List.length_cons, List.replicate_succ, List.cons_append, keptShape, ih,
        List.replicate_succ, List.cons_append, if_pos rfl]

theorem keptShape_of_not_mem {t : Shape} {marks : List Bool} (h : true ∉ marks) :
    keptShape t marks = t := by
  induction t generalizing marks with
  | nil => cases marks <;> rfl
  | cons n t ih =>
      cases marks with
      | nil => rfl
      | cons mark marks =>
          rw [List.mem_cons, not_or] at h
          have hm : mark = false := by simpa [eq_comm] using h.1
          rw [keptShape, ih h.2, hm]
          rfl

theorem stretchedAxes_append {lead t s : Shape} (hl : s.length = t.length) :
    stretchedAxes (lead ++ t) s =
      List.replicate lead.length true ++ List.zipWith (fun m n => n == 1 && m != 1) t s := by
  have hd : (lead ++ t).length - s.length = lead.length := by
    rw [List.length_append]
    omega
  rw [stretchedAxes, hd, List.drop_left]

theorem stretchedAxes_of_length_eq {t s : Shape} (hl : s.length = t.length) :
    stretchedAxes t s = List.zipWith (fun m n => n == 1 && m != 1) t s := by
  simp [stretchedAxes, hl]

/-- The sums leave the operand's extents where the operand was stretched. -/
theorem keptShape_zipWith {s t : Shape} (h : List.Forall₂ AxisFits s t) :
    keptShape t (List.zipWith (fun m n => n == 1 && m != 1) t s) = s := by
  induction h with
  | nil => rfl
  | @cons m n s t hm _ ih =>
      rw [List.zipWith_cons_cons, keptShape, ih]
      congr 1
      unfold AxisFits at hm
      by_cases h1 : m = 1
      · by_cases hn : n = 1 <;> simp [h1, hn]
      · simp [hm.resolve_right h1]

theorem shape_summedFor (zero : α) (add : α → α → α) (s : Shape) (g : Grid α) :
    (g.summedFor zero add s).shape = keptShape g.shape (stretchedAxes g.shape s) := by
  simp only [summedFor]
  split
  · rfl
  · rename_i h
    rw [keptShape_of_not_mem]
    simpa using h

/-! ## When it can be done -/

/-- A gradient of shape `t` can be brought to the shape `s`. -/
def Reducible (t s : Shape) : Prop :=
  if t.length < s.length then t.broadcast s = some s
  else (keptShape t (stretchedAxes t s)).size = s.size

theorem reducible_self (s : Shape) : Reducible s s := by
  have hf : List.Forall₂ AxisFits s s := List.forall₂_same.2 fun m _ => .inl rfl
  rw [Reducible, if_neg (Nat.lt_irrefl _), stretchedAxes_of_length_eq rfl, keptShape_zipWith hf]

/-- It succeeds exactly then, and with the shape that was asked for. -/
theorem reduceTo_eq_ok (zero : α) (add : α → α → α) {g : Grid α} {s : Shape}
    (h : Reducible g.shape s) :
    ∃ g', g.reduceTo zero add s = .ok g' ∧ g'.shape = s := by
  unfold reduceTo rank
  unfold Reducible at h
  by_cases hs : g.shape = s
  · exact ⟨g, if_pos hs, hs⟩
  rw [if_neg hs]
  by_cases hl : g.shape.length < s.length
  · rw [if_pos hl] at h
    exact ⟨g.spread zero s, by rw [if_pos hl, if_pos (spreads_iff.2 h)], rfl⟩
  · rw [if_neg hl] at h
    have hsize : (g.summedFor zero add s).shape.size = s.size := by rw [shape_summedFor, h]
    refine ⟨(g.summedFor zero add s).reshape s hsize, ?_, rfl⟩
    rw [if_neg hl, reshape?, dif_pos hsize]

/-- Otherwise the axes do not match. -/
theorem reduceTo_eq_error (zero : α) (add : α → α → α) {g : Grid α} {s : Shape}
    (h : ¬ Reducible g.shape s) :
    ∃ e, g.reduceTo zero add s = .error e ∧ e.Misfit := by
  have hs : g.shape ≠ s := by
    intro hs
    rw [hs] at h
    exact h (reducible_self s)
  unfold reduceTo rank
  unfold Reducible at h
  rw [if_neg hs]
  by_cases hl : g.shape.length < s.length
  · rw [if_pos hl] at h
    refine ⟨_, ?_, .inr ⟨g.shape, s, rfl⟩⟩
    rw [if_pos hl, if_neg (fun hsp => h (spreads_iff.1 hsp))]
  · rw [if_neg hl] at h
    have hsize : ¬ (g.summedFor zero add s).shape.size = s.size := by rwa [shape_summedFor]
    refine ⟨.notReshapable _ s, ?_, .inl ⟨(g.summedFor zero add s).shape.size, s, rfl⟩⟩
    rw [if_neg hl, reshape?, dif_neg hsize]

/-- A gradient can be brought back to a shape that was stretched to its own. -/
theorem reducible_of_broadcast {s b : Shape} (h : s.broadcast b = some b) : Reducible b s := by
  obtain ⟨lead, t, rfl, hf⟩ := broadcast_eq_right_iff.1 h
  have hl := hf.length_eq
  rw [Reducible, if_neg (by rw [List.length_append]; omega), stretchedAxes_append hl,
    keptShape_append, keptShape_zipWith hf, size_append, size_replicate_one, Nat.one_mul]

/-! ## Two operands of one sum of products -/

/-- The extents that two shapes of the same rank agree on, with 1 elsewhere. -/
def common (s t : Shape) : Shape := List.zipWith (fun m n => if m = n then m else 1) s t

theorem common_comm (s t : Shape) : common s t = common t s := by
  unfold common
  rw [List.zipWith_comm]
  congr 1
  funext m n
  by_cases h : m = n
  · simp [h]
  · rw [if_neg h, if_neg (fun e => h e.symm)]

/-- What the sums leave of a gradient that has the shape of the other operand. -/
theorem keptShape_eq_common {s t : Shape} (h : List.Forall₂ AxesJoin s t) :
    keptShape t (List.zipWith (fun m n => n == 1 && m != 1) t s) = common s t := by
  unfold common
  induction h with
  | nil => rfl
  | @cons m n s t hm _ ih =>
      rw [List.zipWith_cons_cons, keptShape, ih, List.zipWith_cons_cons]
      congr 1
      rcases hm with rfl | rfl | rfl
      · by_cases h1 : m = 1 <;> simp [h1]
      · by_cases hn : n = 1
        · simp [hn]
        · rw [if_neg (fun e : 1 = n => hn e.symm)]
          simp [hn]
      · by_cases h1 : m = 1 <;> simp [h1]

theorem size_common_dvd {s t : Shape} (h : List.Forall₂ AxesJoin s t) :
    (common s t).size ∣ s.size := by
  unfold common
  induction h with
  | nil => exact Nat.dvd_refl _
  | @cons m n s t hm _ ih =>
      rw [List.zipWith_cons_cons, size_cons, size_cons]
      refine Nat.mul_dvd_mul ?_ ih
      split
      · exact Nat.dvd_refl _
      · exact Nat.one_dvd _

/-- Two divisors that make up the whole product are the factors. -/
theorem eq_and_eq_of_mul_eq {d m e n : Nat} (hd : d ∣ m) (he : e ∣ n) (h0 : d * e ≠ 0)
    (h : d * e = m * n) : d = m ∧ e = n := by
  obtain ⟨a, rfl⟩ := hd
  obtain ⟨c, rfl⟩ := he
  have hac : d * e * (a * c) = d * e * 1 := by
    rw [Nat.mul_one, Nat.mul_mul_mul_comm, ← h]
  have h1 := Nat.eq_of_mul_eq_mul_left (Nat.pos_of_ne_zero h0) hac
  rw [Nat.dvd_one.1 ⟨c, h1.symm⟩, Nat.dvd_one.1 ⟨a, (Nat.mul_comm c a).trans h1 |>.symm⟩]
  exact ⟨(Nat.mul_one d).symm, (Nat.mul_one e).symm⟩

/-- Where no axis is empty, the agreed extents make up both sizes only for equal shapes. -/
theorem eq_of_size_common {s t : Shape} (h : List.Forall₂ AxesJoin s t)
    (h0 : (common s t).size ≠ 0) (hs : (common s t).size = s.size)
    (ht : (common s t).size = t.size) : s = t := by
  induction h with
  | nil => rfl
  | @cons m n s t hm hst ih =>
      have hts : List.Forall₂ AxesJoin t s := by
        refine hst.flip.imp fun a c hac => ?_
        rcases hac with rfl | h1 | h1
        · exact .inl rfl
        · exact .inr (.inr h1)
        · exact .inr (.inl h1)
      have hcons : common (m :: s) (n :: t) = (if m = n then m else 1) :: common s t := rfl
      rw [hcons, size_cons] at h0 hs ht
      rw [size_cons] at hs ht
      have hdm : (if m = n then m else 1) ∣ m := by
        split
        · exact Nat.dvd_refl _
        · exact Nat.one_dvd _
      have hdn : (if m = n then m else 1) ∣ n := by
        split
        · rename_i e
          exact e ▸ Nat.dvd_refl m
        · exact Nat.one_dvd _
      obtain ⟨h₁, h₂⟩ := eq_and_eq_of_mul_eq hdm (size_common_dvd hst) h0 hs
      obtain ⟨h₃, h₄⟩ := eq_and_eq_of_mul_eq hdn (common_comm t s ▸ size_common_dvd hts) h0 ht
      rw [ih (fun e => h0 (by rw [e, Nat.mul_zero])) h₂ h₄, ← h₁, h₃]

theorem zero_mem_common_iff {s t : Shape} : 0 ∈ common s t ↔ (0, 0) ∈ s.zip t := by
  induction s generalizing t with
  | nil => simp [common]
  | cons m s ih =>
      cases t with
      | nil => simp [common]
      | cons n t =>
          have hcons : common (m :: s) (n :: t) = (if m = n then m else 1) :: common s t := rfl
          rw [hcons, List.mem_cons, ih, List.zip_cons_cons, List.mem_cons]
          by_cases e : m = n
          · simp [e]
          · have hmn : ¬ ((0, 0) : Nat × Nat) = (m, n) := by
              rintro h0
              cases h0
              exact e rfl
            simp [e, hmn]

/-- Both operands of a sum of products can be given a gradient: their shapes are equal, or both
are empty on one axis, or the one with fewer axes can be stretched to the other. -/
def DotFits (s t : Shape) : Prop :=
  s = t ∨ (s.length = t.length ∧ (0, 0) ∈ s.zip t) ∨
    (s.length < t.length ∧ s.broadcast t = some t) ∨ (t.length < s.length ∧ t.broadcast s = some s)

instance (s t : Shape) : Decidable (DotFits s t) := by
  unfold DotFits
  infer_instance

theorem reducible_iff_common {s t : Shape} (h : List.Forall₂ AxesJoin s t) :
    Reducible t s ↔ (common s t).size = s.size := by
  have hl := h.length_eq
  rw [Reducible, if_neg (by omega), stretchedAxes_of_length_eq hl, keptShape_eq_common h]

theorem reducible_iff_dotFits_of_length_eq {s t b : Shape} (h : s.broadcast t = some b)
    (hl : s.length = t.length) : Reducible t s ∧ Reducible s t ↔ DotFits s t := by
  have hst := axesJoin_of_broadcast h hl
  have hts := axesJoin_of_broadcast ((broadcast_comm t s).trans h) hl.symm
  rw [reducible_iff_common hst, reducible_iff_common hts, common_comm t s]
  constructor
  · rintro ⟨hs, ht⟩
    by_cases h0 : (common s t).size = 0
    · exact .inr (.inl ⟨hl, zero_mem_common_iff.1 (size_eq_zero_iff.1 h0)⟩)
    · exact .inl (eq_of_size_common hst h0 hs ht)
  · rintro (rfl | ⟨-, h0⟩ | ⟨hlt, -⟩ | ⟨hlt, -⟩)
    · have hself := (reducible_iff_common hst).1 (reducible_self s)
      exact ⟨hself, hself⟩
    · have hc := size_eq_zero_iff.2 (zero_mem_common_iff.2 h0)
      rw [hc, size_eq_zero_iff.2 (List.of_mem_zip h0).1, size_eq_zero_iff.2 (List.of_mem_zip h0).2]
      exact ⟨rfl, rfl⟩
    · omega
    · omega

theorem reducible_iff_dotFits_of_length_lt {s t : Shape} (hl : s.length < t.length) :
    Reducible t s ∧ Reducible s t ↔ DotFits s t := by
  have hst : Reducible s t ↔ s.broadcast t = some t := by rw [Reducible, if_pos hl]
  rw [hst]
  constructor
  · rintro ⟨-, h⟩
    exact .inr (.inr (.inl ⟨hl, h⟩))
  · rintro (rfl | ⟨he, -⟩ | ⟨-, h⟩ | ⟨hlt, -⟩)
    · omega
    · omega
    · exact ⟨reducible_of_broadcast h, h⟩
    · omega

theorem dotFits_comm {s t : Shape} : DotFits s t ↔ DotFits t s := by
  have hzip : (0, 0) ∈ s.zip t ↔ (0, 0) ∈ t.zip s := by
    rw [← zero_mem_common_iff, common_comm, zero_mem_common_iff]
  unfold DotFits
  rw [hzip, eq_comm, @eq_comm _ s.length]
  constructor
  · rintro (h | h | h | h)
    · exact .inl h
    · exact .inr (.inl h)
    · exact .inr (.inr (.inr h))
    · exact .inr (.inr (.inl h))
  · rintro (h | h | h | h)
    · exact .inl h
    · exact .inr (.inl h)
    · exact .inr (.inr (.inr h))
    · exact .inr (.inr (.inl h))

/-- The gradients of a sum of products, each of the other operand's shape, can both be brought
back exactly if the shapes fit. -/
theorem reducible_iff_dotFits {s t b : Shape} (h : s.broadcast t = some b) :
    Reducible t s ∧ Reducible s t ↔ DotFits s t := by
  rcases Nat.lt_trichotomy s.length t.length with hl | hl | hl
  · exact reducible_iff_dotFits_of_length_lt hl
  · exact reducible_iff_dotFits_of_length_eq h hl
  · rw [dotFits_comm, and_comm]
    exact reducible_iff_dotFits_of_length_lt hl

end Grid

end DiffGraph
