import DiffGraph.Tensor.Reduce
import Mathlib.Data.List.Forall2

/-!
# Broadcasting of shapes

A shape is stretched by broadcasting when it lacks leading axes of the result or has the extent 1
where the result has not. That `s` can be stretched to `b` is written `s.broadcast b = some b`.
-/

namespace DiffGraph

namespace Shape

/-- An axis that can be stretched to an extent. -/
def AxisFits (m n : Nat) : Prop := m = n ∨ m = 1

/-- Two axes that can be broadcast. -/
def AxesJoin (m n : Nat) : Prop := m = n ∨ m = 1 ∨ n = 1

/-! ## The rule for two axes -/

theorem joinAxis_comm (m n : Nat) : joinAxis m n = joinAxis n m := by
  unfold joinAxis
  split_ifs <;> simp_all

@[simp] theorem joinAxis_self (m : Nat) : joinAxis m m = some m := by
  simp [joinAxis]

theorem joinAxis_absorb {m n d : Nat} (h : joinAxis m n = some d) : joinAxis m d = some d := by
  unfold joinAxis at h ⊢
  split_ifs at h ⊢ <;> simp_all

theorem joinAxis_eq_right_iff {m n : Nat} : joinAxis m n = some n ↔ AxisFits m n := by
  unfold joinAxis AxisFits
  split_ifs <;> simp_all

theorem axesJoin_of_joinAxis {m n d : Nat} (h : joinAxis m n = some d) : AxesJoin m n := by
  unfold joinAxis at h
  unfold AxesJoin
  split_ifs at h <;> simp_all

/-! ## The rule for reversed shapes -/

@[simp] theorem joinReversed_nil_left (t : Shape) : joinReversed [] t = some t := by
  cases t <;> rfl

@[simp] theorem joinReversed_nil_right (s : Shape) : joinReversed s [] = some s := by
  cases s <;> rfl

theorem joinReversed_cons_eq_some_iff {m n : Nat} {s t b : Shape} :
    joinReversed (m :: s) (n :: t) = some b ↔
      ∃ d u, joinAxis m n = some d ∧ joinReversed s t = some u ∧ b = d :: u := by
  rw [joinReversed]
  cases joinAxis m n <;> cases joinReversed s t <;> simp [eq_comm]

theorem joinReversed_comm (s t : Shape) : joinReversed s t = joinReversed t s := by
  induction s generalizing t with
  | nil => simp
  | cons m s ih =>
      cases t with
      | nil => simp
      | cons n t => rw [joinReversed, joinReversed, joinAxis_comm, ih]

theorem joinReversed_self (s : Shape) : joinReversed s s = some s := by
  induction s with
  | nil => rfl
  | cons m s ih => exact joinReversed_cons_eq_some_iff.2 ⟨m, s, joinAxis_self m, ih, rfl⟩

/-- What two shapes broadcast to absorbs each of them. -/
theorem joinReversed_absorb {s t b : Shape} (h : joinReversed s t = some b) :
    joinReversed s b = some b := by
  induction s generalizing t b with
  | nil => simp
  | cons m s ih =>
      cases t with
      | nil =>
          rw [joinReversed_nil_right, Option.some.injEq] at h
          rw [← h]
          exact joinReversed_self _
      | cons n t =>
          obtain ⟨d, u, hd, hu, rfl⟩ := joinReversed_cons_eq_some_iff.1 h
          exact joinReversed_cons_eq_some_iff.2 ⟨d, u, joinAxis_absorb hd, ih hu, rfl⟩

theorem joinReversed_eq_right_iff {s b : Shape} :
    joinReversed s b = some b ↔ ∃ t rest, b = t ++ rest ∧ List.Forall₂ AxisFits s t := by
  induction s generalizing b with
  | nil =>
      simp only [joinReversed_nil_left, true_iff]
      exact ⟨[], b, rfl, .nil⟩
  | cons m s ih =>
      cases b with
      | nil =>
          simp only [joinReversed_nil_right, Option.some.injEq, reduceCtorEq, false_iff]
          rintro ⟨t, rest, hb, hf⟩
          obtain ⟨rfl, -⟩ := List.append_eq_nil_iff.1 hb.symm
          cases hf
      | cons n b =>
          rw [joinReversed_cons_eq_some_iff]
          constructor
          · rintro ⟨d, u, hd, hu, hb⟩
            rw [List.cons.injEq] at hb
            obtain ⟨rfl, rfl⟩ := hb
            obtain ⟨t, rest, rfl, hf⟩ := ih.1 hu
            exact ⟨n :: t, rest, rfl, .cons (joinAxis_eq_right_iff.1 hd) hf⟩
          · rintro ⟨t, rest, hb, hf⟩
            cases hf with
            | @cons _ k _ t hk hf =>
                rw [List.cons_append, List.cons.injEq] at hb
                obtain ⟨rfl, rfl⟩ := hb
                exact ⟨n, _, joinAxis_eq_right_iff.2 hk, ih.2 ⟨t, rest, rfl, hf⟩, rfl⟩

theorem forall₂_axesJoin {s t b : Shape} (h : joinReversed s t = some b)
    (hl : s.length = t.length) : List.Forall₂ AxesJoin s t := by
  induction s generalizing t b with
  | nil =>
      rw [List.length_eq_zero_iff.1 hl.symm]
      exact .nil
  | cons m s ih =>
      cases t with
      | nil => cases hl
      | cons n t =>
          obtain ⟨d, u, hd, hu, rfl⟩ := joinReversed_cons_eq_some_iff.1 h
          exact .cons (axesJoin_of_joinAxis hd) (ih hu (Nat.succ.inj hl))

/-! ## Broadcasting -/

theorem broadcast_eq_some_iff {s t b : Shape} :
    s.broadcast t = some b ↔ joinReversed s.reverse t.reverse = some b.reverse := by
  rw [broadcast, Option.map_eq_some_iff]
  constructor
  · rintro ⟨u, hu, rfl⟩
    rwa [List.reverse_reverse]
  · intro h
    exact ⟨b.reverse, h, List.reverse_reverse b⟩

theorem broadcast_comm (s t : Shape) : s.broadcast t = t.broadcast s := by
  rw [broadcast, joinReversed_comm, broadcast]

@[simp] theorem broadcast_self (s : Shape) : s.broadcast s = some s :=
  broadcast_eq_some_iff.2 (joinReversed_self _)

theorem broadcast_left {s t b : Shape} (h : s.broadcast t = some b) : s.broadcast b = some b :=
  broadcast_eq_some_iff.2 (joinReversed_absorb (broadcast_eq_some_iff.1 h))

theorem broadcast_right {s t b : Shape} (h : s.broadcast t = some b) : t.broadcast b = some b := by
  rw [broadcast_comm] at h
  exact broadcast_left h

/-- A shape can be stretched to another if their last axes fit. -/
theorem broadcast_eq_right_iff {s b : Shape} :
    s.broadcast b = some b ↔ ∃ lead t, b = lead ++ t ∧ List.Forall₂ AxisFits s t := by
  rw [broadcast_eq_some_iff, joinReversed_eq_right_iff]
  constructor
  · rintro ⟨t, rest, hb, hf⟩
    refine ⟨rest.reverse, t.reverse, ?_, ?_⟩
    · rw [← List.reverse_append, ← hb, List.reverse_reverse]
    · rw [← List.forall₂_reverse_iff, List.reverse_reverse]
      exact hf
  · rintro ⟨lead, t, rfl, hf⟩
    exact ⟨t.reverse, lead.reverse, List.reverse_append, List.forall₂_reverse_iff.2 hf⟩

theorem axesJoin_of_broadcast {s t b : Shape} (h : s.broadcast t = some b)
    (hl : s.length = t.length) : List.Forall₂ AxesJoin s t := by
  rw [← List.forall₂_reverse_iff]
  refine forall₂_axesJoin (broadcast_eq_some_iff.1 h) ?_
  rw [List.length_reverse, List.length_reverse, hl]

theorem all_zipWith_iff {s t : Shape} (hl : s.length = t.length) :
    (List.zipWith (fun m n => m == n || m == 1) s t).all id ↔ List.Forall₂ AxisFits s t := by
  induction s generalizing t with
  | nil =>
      rw [List.length_eq_zero_iff.1 hl.symm]
      exact iff_of_true rfl .nil
  | cons m s ih =>
      cases t with
      | nil => cases hl
      | cons n t =>
          rw [List.zipWith_cons_cons, List.all_cons, Bool.and_eq_true, ih (Nat.succ.inj hl),
            List.forall₂_cons]
          simp [AxisFits]

/-- Spreading is broadcasting to a shape that is given. -/
theorem spreads_iff {s b : Shape} : s.spreads b ↔ s.broadcast b = some b := by
  rw [broadcast_eq_right_iff, spreads, Bool.and_eq_true, decide_eq_true_eq]
  constructor
  · rintro ⟨hl, hf⟩
    have hd : s.length = (b.drop (b.length - s.length)).length := by
      rw [List.length_drop]
      omega
    exact ⟨b.take (b.length - s.length), b.drop (b.length - s.length),
      (List.take_append_drop _ _).symm, (all_zipWith_iff hd).1 hf⟩
  · rintro ⟨lead, t, rfl, hf⟩
    have hl := hf.length_eq
    rw [List.length_append]
    refine ⟨by omega, ?_⟩
    have hd : lead.length + t.length - s.length = lead.length := by omega
    rw [hd, List.drop_left]
    exact (all_zipWith_iff hl).2 hf

/-! ## Sizes -/

theorem size_append (s t : Shape) : (s ++ t : Shape).size = s.size * t.size := by
  induction s with
  | nil => simp
  | cons n s ih => rw [List.cons_append, size_cons, size_cons, ih, Nat.mul_assoc]

theorem size_replicate_one (k : Nat) : size (List.replicate k 1) = 1 := by
  induction k with
  | zero => rfl
  | succ k ih => rw [List.replicate_succ, size_cons, ih]

theorem size_eq_zero_iff {s : Shape} : s.size = 0 ↔ 0 ∈ s := by
  induction s with
  | nil => simp
  | cons n s ih => rw [size_cons, Nat.mul_eq_zero, ih, List.mem_cons, eq_comm]

end Shape

end DiffGraph
