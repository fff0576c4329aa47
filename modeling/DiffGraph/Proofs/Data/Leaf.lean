import DiffGraph.Config
import DiffGraph.Graph.Call
import DiffGraph.Proofs.Outcomes

/-!
# Tensors from data

The element type of a tensor that is made from data, and what becomes of a tensor that is handed
in as data again. Real data gets the element type that was asked for. A tensor that was made for
an element type is already what would be made of it, so making it once more changes nothing.
-/

namespace DiffGraph

variable {D V E : Type}

/-! ## Element types of data -/

/-- The numbers of the type have no imaginary part. -/
def ElementType.IsReal : ElementType → Prop
  | .floating d => d.field = .real
  | _ => True

/-- No entry of the data is of a complex type. -/
def Datum.IsReal (d : Datum) : Prop := ∀ e ∈ d.types, e.IsReal

namespace ElementType

theorem isReal_joinIntegral (k l : Integral) : (joinIntegral k l).IsReal := by
  have hmixed : ∀ m n, (joinIntegral.mixed m n).IsReal := by
    intro m n
    unfold joinIntegral.mixed
    split
    · trivial
    · split
      · trivial
      · rfl
  cases k <;> cases l <;> first | trivial | exact hmixed _ _

theorem IsReal.join {e f : ElementType} (he : e.IsReal) (hf : f.IsReal) : (e.join f).IsReal := by
  cases e with
  | object => trivial
  | text m => cases f <;> trivial
  | integral k =>
      cases f with
      | integral l => exact isReal_joinIntegral k l
      | floating d => exact hf
      | text n => trivial
      | object => trivial
  | floating d =>
      cases f with
      | integral l => exact he
      | floating d' =>
          simp only [IsReal] at he hf
          simp only [ElementType.join, IsReal, DType.join, he, hf, Field.join]
      | text n => trivial
      | object => trivial

/-- What holds of all types of a list and is kept by joins holds of their common type. -/
theorem common_of_forall {P : ElementType → Prop} (hjoin : ∀ e f, P e → P f → P (e.join f))
    {es : List ElementType} (hne : es ≠ []) (h : ∀ e ∈ es, P e) : P (common es) := by
  cases es with
  | nil => exact absurd rfl hne
  | cons e es =>
      rw [List.forall_mem_cons] at h
      obtain ⟨he, hes⟩ := h
      change P (es.foldl join e)
      clear hne
      induction es generalizing e with
      | nil => exact he
      | cons f es ih =>
          rw [List.forall_mem_cons] at hes
          exact ih (e.join f) (hjoin e f he hes.1) hes.2

theorem isReal_common {es : List ElementType} (h : ∀ e ∈ es, e.IsReal) : (common es).IsReal := by
  by_cases hne : es = []
  · rw [hne]
    rfl
  · exact common_of_forall (fun _ _ => IsReal.join) hne h

end ElementType

theorem NumArray.elementType_of_mem_parts {a part : NumArray} (h : part ∈ a.parts) :
    part.elementType = a.elementType := by
  cases a with
  | integral k g =>
      obtain ⟨_, -, rfl⟩ := List.mem_map.1 h
      rfl
  | floating t =>
      obtain ⟨_, -, rfl⟩ := List.mem_map.1 h
      rfl

namespace Datum

theorem typesAll_eq_flatMap (ds : List Datum) : typesAll ds = ds.flatMap types := by
  induction ds with
  | nil => rfl
  | cons d ds ih => rw [typesAll, List.flatMap_cons, ih]

theorem isReal_list_iff {ds : List Datum} : (list ds).IsReal ↔ ∀ d ∈ ds, d.IsReal := by
  unfold IsReal
  rw [types, typesAll_eq_flatMap]
  simp only [List.mem_flatMap, forall_exists_index, and_imp]
  exact ⟨fun h d hd e he => h e d hd he, fun h e d hd he => h d hd e he⟩

theorem isReal_text (s : String) : (text s).IsReal := by
  intro e he
  rw [types, List.mem_singleton] at he
  rw [he]
  trivial

/-- Running through real data gives real data. -/
theorem IsReal.items {d : Datum} (h : d.IsReal) {ds : List Datum} (hi : d.items = .ok ds) :
    (list ds).IsReal := by
  cases d with
  | list es | tuple es =>
      rw [← Except.ok.inj hi]
      exact h
  | text s =>
      rw [← Except.ok.inj hi, isReal_list_iff]
      intro d hd
      obtain ⟨c, -, rfl⟩ := List.mem_map.1 hd
      exact isReal_text _
  | dict es =>
      rw [← Except.ok.inj hi, isReal_list_iff]
      intro d hd
      obtain ⟨e, -, rfl⟩ := List.mem_map.1 hd
      exact isReal_text _
  | array a =>
      have ha : a.value.elementType.IsReal := h _ (by simp [types])
      have hpart : ∀ part ∈ a.value.parts, part.elementType.IsReal := by
        intro part hpart
        rw [NumArray.elementType_of_mem_parts hpart]
        exact ha
      rw [Datum.items] at hi
      split at hi
      · cases hi
      · split at hi
        all_goals
          rw [← Except.ok.inj hi, isReal_list_iff]
          intro d hd
          obtain ⟨part, hmem, rfl⟩ := List.mem_map.1 hd
          intro e he
          rw [types, List.mem_singleton] at he
          rw [he]
          exact hpart part hmem
  | null | bool _ | int _ | real _ | complex _ | entry _ => cases hi

/-- An array is held in the common type of the entries. -/
theorem elementType_toArray {d : Datum} {a : NumArray} (h : d.toArray = .ok a) :
    a.elementType = ElementType.common d.types := by
  unfold toArray at h
  split at h
  · rw [← Except.ok.inj h]
    rfl
  · rw [← Except.ok.inj h]
    rfl
  · obtain ⟨s, -, h⟩ := Except.bind_eq_ok_iff.1 h
    split at h
    · rename_i k hk
      rw [hk, ← Except.ok.inj h]
      rfl
    · rename_i c hc
      rw [hc, ← Except.ok.inj h]
      rfl
    · cases h

theorem isReal_elementType_toArray {d : Datum} (h : d.IsReal) {a : NumArray}
    (ha : d.toArray = .ok a) : a.elementType.IsReal := by
  rw [elementType_toArray ha]
  exact ElementType.isReal_common h

end Datum

/-! ## The element type of a tensor -/

namespace NumArray

/-- Exact and real numbers get the type asked for, and so do complex ones if it is complex. -/
theorem targetType_of_isReal {d : DType} {a : NumArray}
    (h : d.field = .real → a.elementType.IsReal) : a.targetType d = d := by
  cases a with
  | integral k g => rfl
  | floating t =>
      rw [targetType, if_neg]
      rintro ⟨hc, hr⟩
      have ht : t.dtype.field = .real := h hr
      rw [ht] at hc
      cases hc

/-- The target type does not change once it is reached. -/
theorem targetType_floating_of_eq {d : DType} {a : NumArray} {t : Tensor Machine}
    (h : t.dtype = a.targetType d) : (NumArray.floating t).targetType d = t.dtype := by
  have hsettled : (a.targetType d).field = .complex → d.field = .real →
      (a.targetType d).join d = a.targetType d := by
    rcases d with ⟨f, w⟩
    intro hc hr
    simp only at hr
    subst hr
    cases a with
    | integral k g => cases hc
    | floating u =>
        rw [targetType] at hc ⊢
        split
        · obtain ⟨f', w'⟩ := u.dtype
          cases f' <;> cases w <;> cases w' <;> rfl
        · rename_i hu
          rw [if_neg hu] at hc
          cases hc
  rw [targetType, h]
  split
  · rename_i hc
    exact hsettled hc.1 hc.2
  · rename_i hc
    cases a with
    | integral k g => rfl
    | floating u =>
        rw [targetType] at hc ⊢
        split
        · rename_i hu
          rw [if_pos hu] at hc
          refine absurd ⟨?_, hu.2⟩ hc
          simp only [DType.join, hu.1, Field.join]
        · rfl

@[simp] theorem dtype_toTensor (d : DType) (a : NumArray) : (a.toTensor d).dtype = d := by
  cases a <;> rfl

end NumArray

theorem Grid.map_eq_self {α : Type} {f : α → α} (h : ∀ x, f x = x) (g : Grid α) : g.map f = g := by
  obtain rfl : f = id := funext h
  simp [Grid.map]

theorem Tensor.cast_self (t : Tensor Machine) : t.cast t.dtype = t := by
  obtain ⟨d, g⟩ := t
  simp only [Tensor.cast, Tensor.mk.injEq, heq_eq_eq, true_and]
  exact g.map_eq_self Machine.cast_self

/-- What a tensor is made of: an array, for a target type that the array gives. -/
theorem intoTensor_eq_ok_iff {d : DType} {v : Datum} {t : Tensor Machine} :
    intoTensor d v = .ok t ↔
      v.isNumeric = true ∧ ∃ a, v.toArray = .ok a ∧ t = a.toTensor (a.targetType d) := by
  unfold intoTensor
  cases hv : v.isNumeric with
  | false => simp [throw, throwThe, MonadExceptOf.throw, bind, Except.bind]
  | true =>
      simp only [Bool.not_true, Bool.false_eq_true, if_false, true_and]
      constructor
      · intro h
        obtain ⟨a, ha, ht⟩ := Except.bind_eq_ok_iff.1 h
        exact ⟨a, ha, (Except.ok.inj ht).symm⟩
      · rintro ⟨a, ha, rfl⟩
        exact Except.bind_eq_ok_iff.2 ⟨a, ha, rfl⟩

theorem dtype_intoTensor {d : DType} {v : Datum} (hv : d.field = .real → v.IsReal)
    {t : Tensor Machine} (h : intoTensor d v = .ok t) : t.dtype = d := by
  obtain ⟨-, a, ha, rfl⟩ := intoTensor_eq_ok_iff.1 h
  rw [NumArray.dtype_toTensor]
  exact NumArray.targetType_of_isReal fun hd => Datum.isReal_elementType_toArray (hv hd) ha

/-- A tensor that was made for an element type is what would be made of it. -/
theorem intoTensor_array_floating {d : DType} {v : Datum} {t : Tensor Machine}
    (h : intoTensor d v = .ok t) (order : ByteOrder) :
    intoTensor d (.array ⟨.floating t, order⟩) = .ok t := by
  obtain ⟨-, a, -, rfl⟩ := intoTensor_eq_ok_iff.1 h
  refine intoTensor_eq_ok_iff.2 ⟨rfl, _, rfl, ?_⟩
  rw [NumArray.targetType_floating_of_eq (a := a) (NumArray.dtype_toTensor _ _)]
  exact (Tensor.cast_self _).symm

/-! ## Leaves -/

/-- The data that the tensor of a leaf is made from: for rank 1 the list of the items. -/
def LeafForm.source (form : LeafForm) (d : Datum) : Except TensorError Datum :=
  match form with
  | .vector => d.items.map .list
  | _ => .ok d

theorem LeafForm.isReal_source {form : LeafForm} {d s : Datum} (hs : form.source d = .ok s)
    (hd : d.IsReal) : s.IsReal := by
  cases form with
  | any | scalar =>
      rw [← Except.ok.inj hs]
      exact hd
  | vector =>
      obtain ⟨ds, hi, rfl⟩ := Except.map_eq_ok_iff.1 hs
      exact hd.items hi

/-- A value that was made from data stays as it is when it is handed in as data. -/
def Conversion.Settled (conversion : Conversion D V E) : Prop :=
  ∀ form d v, conversion.of form d = .ok v → conversion.any (conversion.data v) = .ok v

namespace Config

variable (c : Config)

/-- Whatever the rank that a leaf asks for, its tensor is made from its source. -/
theorem conversion_of_eq_ok {form : LeafForm} {d : Datum} {t : Tensor Machine}
    (h : c.conversion.of form d = .ok t) :
    ∃ s, form.source d = .ok s ∧ intoTensor c.dtype.value s = .ok t := by
  cases form with
  | any => exact ⟨d, rfl, h⟩
  | scalar =>
      obtain ⟨u, hu, h⟩ := Except.bind_eq_ok_iff.1 h
      split at h
      · rw [← Except.ok.inj h]
        exact ⟨d, rfl, hu⟩
      · cases h
  | vector =>
      obtain ⟨ds, hds, h⟩ := Except.bind_eq_ok_iff.1 h
      obtain ⟨u, hu, h⟩ := Except.bind_eq_ok_iff.1 h
      split at h
      · rw [← Except.ok.inj h]
        exact ⟨.list ds, by rw [LeafForm.source, hds]; rfl, hu⟩
      · cases h

theorem storedConversion_of (form : LeafForm) (d : Datum) :
    c.storedConversion.of form d = (c.conversion.of form d).map c.stored := by
  cases form <;> rfl

theorem storedConversion_of_eq_ok {form : LeafForm} {d : Datum} {v : Stored (Tensor Machine)}
    (h : c.storedConversion.of form d = .ok v) :
    ∃ s, form.source d = .ok s ∧ c.storedConversion.any s = .ok v := by
  rw [storedConversion_of] at h
  obtain ⟨t, ht, rfl⟩ := Except.map_eq_ok_iff.1 h
  obtain ⟨s, hs, hst⟩ := c.conversion_of_eq_ok ht
  exact ⟨s, hs, Except.map_eq_ok_iff.2 ⟨t, hst, rfl⟩⟩

@[simp] theorem value_stored (t : Tensor Machine) : (c.stored t).value = t := by
  unfold stored
  split <;> rfl

theorem settled_conversion : c.conversion.Settled := by
  intro form d t h
  obtain ⟨s, -, hs⟩ := c.conversion_of_eq_ok h
  exact intoTensor_array_floating hs _

theorem settled_storedConversion : c.storedConversion.Settled := by
  intro form d v h
  rw [storedConversion_of] at h
  obtain ⟨t, ht, rfl⟩ := Except.map_eq_ok_iff.1 h
  obtain ⟨s, -, hs⟩ := c.conversion_of_eq_ok ht
  change (intoTensor c.dtype.value (.array ⟨.floating (c.stored t).value, _⟩)).map c.stored = _
  rw [value_stored, intoTensor_array_floating hs]
  rfl

/-- Real data gets the element type of the graph, in its byte order. -/
theorem storedConversion_dtype {form : LeafForm} {d : Datum} {v : Stored (Tensor Machine)}
    (hd : c.dtype.value.field = .real → d.IsReal) (h : c.storedConversion.of form d = .ok v) :
    v.map Tensor.dtype = c.dtype := by
  rw [storedConversion_of] at h
  obtain ⟨t, ht, rfl⟩ := Except.map_eq_ok_iff.1 h
  obtain ⟨s, hs, hst⟩ := c.conversion_of_eq_ok ht
  have hdt : t.dtype = c.dtype.value :=
    dtype_intoTensor (fun hr => LeafForm.isReal_source hs (hd hr)) hst
  rw [stored, if_pos (by rw [hdt]), Stored.map, hdt]

end Config

end DiffGraph
