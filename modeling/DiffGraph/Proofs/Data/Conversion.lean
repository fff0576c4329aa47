import DiffGraph.Proofs.Engine.Refusal
import Mathlib.Order.Bounds.Basic

/-!
# Data that is converted twice

A variable with a value is made in two steps, and each of them converts the value: the first from
the data of the client, the second from the tensor that came out of the first. The first settles
the element type. It is the one that was asked for, and the least one above it that holds the data
where complex data meets a request for real numbers. The second then finds nothing to do, whatever
was handed in.
-/

namespace DiffGraph

/-! ## The order of the element types -/

theorem Field.eq_of_complex_iff {f g : Field} (h : f = .complex ↔ g = .complex) : f = g := by
  cases f <;> cases g <;> simp_all

theorem Width.eq_of_double_iff {w w' : Width} (h : w = .double ↔ w' = .double) : w = w' := by
  cases w <;> cases w' <;> simp_all

theorem Field.join_eq_complex_iff {f g : Field} :
    f.join g = .complex ↔ f = .complex ∨ g = .complex := by
  cases f <;> cases g <;> decide

theorem Width.join_eq_double_iff {w w' : Width} :
    w.join w' = .double ↔ w = .double ∨ w' = .double := by
  cases w <;> cases w' <;> decide

/-- A type is below those that hold its values: a complex one does not fit in a real one, nor a
double-width one in a single-width one. -/
instance : PartialOrder DType where
  le d e := (d.field = .complex → e.field = .complex) ∧ (d.width = .double → e.width = .double)
  le_refl _ := ⟨id, id⟩
  le_trans _ _ _ h h' := ⟨h'.1 ∘ h.1, h'.2 ∘ h.2⟩
  le_antisymm := by
    rintro ⟨f, w⟩ ⟨f', w'⟩ h h'
    obtain rfl : f = f' := Field.eq_of_complex_iff ⟨h.1, h'.1⟩
    obtain rfl : w = w' := Width.eq_of_double_iff ⟨h.2, h'.2⟩
    rfl

namespace DType

theorem join_le_iff {d e r : DType} : d.join e ≤ r ↔ d ≤ r ∧ e ≤ r := by
  change (_ ∧ _) ↔ (_ ∧ _) ∧ (_ ∧ _)
  simp only [join, Field.join_eq_complex_iff, Width.join_eq_double_iff, or_imp]
  exact and_and_and_comm

theorem isLUB_join (d e : DType) : IsLUB {d, e} (d.join e) := by
  refine isLUB_iff_le_iff.2 fun r => join_le_iff.trans ?_
  simp [upperBounds]

end DType

namespace ElementType

/-- Data of the type becomes a tensor of type `r` where `d` is asked for. Only complex data that
is asked for as real numbers does not get what was asked for. -/
def Becomes (e : ElementType) (d r : DType) : Prop :=
  (e.IsReal ∨ d.field = .complex → r = d) ∧
    ∀ c : DType, e = .floating c → c.field = .complex → d.field = .real →
      r.field = .complex ∧ IsLUB {c, d} r

theorem join_self (e : ElementType) : e.join e = e := by
  cases e with
  | integral k => cases k <;> simp [join, joinIntegral]
  | floating d => simp [join]
  | text n => simp [join, textLength]
  | object => rfl

end ElementType

theorem NumArray.becomes_targetType (d : DType) (a : NumArray) :
    a.elementType.Becomes d (a.targetType d) := by
  constructor
  · intro h
    refine targetType_of_isReal fun hd => h.resolve_right fun hc => ?_
    rw [hd] at hc
    cases hc
  · intro c he hc hd
    cases a with
    | integral k g => cases he
    | floating t =>
        obtain rfl : t.dtype = c := ElementType.floating.inj he
        rw [targetType, if_pos ⟨hc, hd⟩]
        exact ⟨Field.join_eq_complex_iff.2 (.inl hc), DType.isLUB_join _ _⟩

/-! ## Data and its items -/

namespace Datum

/-- Items that are all of one type have it as their common one. -/
theorem common_types_list {ds : List Datum} {e : ElementType} (hne : ds ≠ [])
    (h : ∀ d ∈ ds, d.types = [e]) : ElementType.common (list ds).types = e := by
  have hmem : ∀ f ∈ (list ds).types, f = e := by
    intro f hf
    rw [types, typesAll_eq_flatMap] at hf
    obtain ⟨d, hd, hf⟩ := List.mem_flatMap.1 hf
    rw [h d hd] at hf
    exact List.mem_singleton.1 hf
  refine ElementType.common_of_forall ?_ ?_ hmem
  · rintro _ _ rfl rfl
    exact ElementType.join_self _
  · obtain ⟨d, ds, rfl⟩ := List.exists_cons_of_ne_nil hne
    rw [types, typesAll, h d List.mem_cons_self]
    exact List.cons_ne_nil _ _

/-- Texts are no numbers, so no array is made of a list of characters or keys. -/
theorem toArray_list_of_texts {ds : List Datum} {a : NumArray} (hne : ds ≠ [])
    (h : ∀ d ∈ ds, ∃ s, d = text s) : (list ds).toArray ≠ .ok a := by
  intro ha
  have htext : ∃ n, ElementType.common (list ds).types = .text n := by
    refine ElementType.common_of_forall (P := fun e => ∃ n, e = .text n) ?_ ?_ ?_
    · rintro _ _ ⟨m, rfl⟩ ⟨n, rfl⟩
      exact ⟨_, rfl⟩
    · obtain ⟨d, ds, rfl⟩ := List.exists_cons_of_ne_nil hne
      obtain ⟨s, rfl⟩ := h d List.mem_cons_self
      rw [types, typesAll, types]
      exact List.cons_ne_nil _ _
    · intro e he
      rw [types, typesAll_eq_flatMap] at he
      obtain ⟨d, hd, he⟩ := List.mem_flatMap.1 he
      obtain ⟨s, rfl⟩ := h d hd
      rw [types, List.mem_singleton] at he
      exact ⟨_, he⟩
  obtain ⟨n, hn⟩ := htext
  rw [← elementType_toArray ha] at hn
  cases a <;> cases hn

theorem toArray_tuple (ds : List Datum) : (tuple ds).toArray = (list ds).toArray := rfl

/-- Some items of data are of the type that the data is of. -/
theorem elementType_toArray_items {v : Datum} {ds : List Datum} {a : NumArray}
    (hi : v.items = .ok ds) (hne : ds ≠ []) (ha : (list ds).toArray = .ok a) :
    ∃ b, v.toArray = .ok b ∧ b.elementType = a.elementType := by
  cases v with
  | list es =>
      rw [← Except.ok.inj hi] at ha
      exact ⟨a, ha, rfl⟩
  | tuple es =>
      rw [← Except.ok.inj hi] at ha
      exact ⟨a, (toArray_tuple es).trans ha, rfl⟩
  | text s =>
      refine absurd ha (toArray_list_of_texts hne ?_)
      rw [← Except.ok.inj hi]
      intro d hd
      obtain ⟨c, -, rfl⟩ := List.mem_map.1 hd
      exact ⟨_, rfl⟩
  | dict es =>
      refine absurd ha (toArray_list_of_texts hne ?_)
      rw [← Except.ok.inj hi]
      intro d hd
      obtain ⟨e, -, rfl⟩ := List.mem_map.1 hd
      exact ⟨_, rfl⟩
  | array x =>
      have htypes : ∀ d ∈ ds, d.types = [x.value.elementType] := by
        rw [items] at hi
        split at hi
        · cases hi
        · split at hi
          all_goals
            rw [← Except.ok.inj hi]
            intro d hd
            obtain ⟨part, hpart, rfl⟩ := List.mem_map.1 hd
            rw [types, NumArray.elementType_of_mem_parts hpart]
      exact ⟨x.value, rfl,
        ((elementType_toArray ha).trans (common_types_list hne htypes)).symm⟩
  | null | bool _ | int _ | real _ | complex _ | entry _ => cases hi

end Datum

theorem becomes_dtype_intoTensor {d : DType} {v : Datum} {t : Tensor Machine}
    (h : intoTensor d v = .ok t) : ∃ a, v.toArray = .ok a ∧ a.elementType.Becomes d t.dtype := by
  obtain ⟨-, a, ha, rfl⟩ := intoTensor_eq_ok_iff.1 h
  refine ⟨a, ha, ?_⟩
  rw [NumArray.dtype_toTensor]
  exact a.becomes_targetType d

/-- A list without entries is real data. -/
theorem dtype_intoTensor_nil {d : DType} {t : Tensor Machine}
    (h : intoTensor d (.list []) = .ok t) : t.dtype = d :=
  dtype_intoTensor (fun _ => Datum.isReal_list_iff.2 fun _ hd => absurd hd List.not_mem_nil) h

/-! ## Leaves -/

/-- The element type is settled by the data of the client, unless it is run through and has no
items. -/
theorem Config.dtype_conversion (c : Config) {form : LeafForm} {d : Datum} {t : Tensor Machine}
    (h : c.conversion.of form d = .ok t) :
    (∃ a, d.toArray = .ok a ∧ a.elementType.Becomes c.dtype.value t.dtype) ∨
      form = .vector ∧ d.items = .ok [] ∧ t.dtype = c.dtype.value := by
  obtain ⟨s, hs, hst⟩ := c.conversion_of_eq_ok h
  cases form with
  | any | scalar =>
      obtain rfl : d = s := Except.ok.inj hs
      exact .inl (becomes_dtype_intoTensor hst)
  | vector =>
      obtain ⟨ds, hi, rfl⟩ := Except.map_eq_ok_iff.1 hs
      by_cases hne : ds = []
      · subst hne
        exact .inr ⟨rfl, hi, dtype_intoTensor_nil hst⟩
      · obtain ⟨a, ha, hbecomes⟩ := becomes_dtype_intoTensor hst
        obtain ⟨b, hb, he⟩ := Datum.elementType_toArray_items hi hne ha
        exact .inl ⟨b, hb, he ▸ hbecomes⟩

/-- An assignment does with its data what the conversion makes of it. -/
theorem Action.setValue_congr {D V E : Type} {convert convert' : D → Except E V} {d : D}
    (h : convert d = convert' d) (r : Ref) : setValue convert r d = setValue convert' r d := by
  unfold setValue
  rw [h]

/-- What is made of data for a leaf is made of itself again. It is of the element type asked for,
or of the least complex one above that and the data. So the assignment that follows when a variable
with a value is made only writes the tensor down: on every graph, it is refused for nothing but its
name. -/
theorem converted_once (c : Config) (form : LeafForm) (d : Datum) {t : Tensor Machine}
    (h : c.conversion.of form d = .ok t) :
    let v := c.stored t
    let data := c.storedConversion.data v
    (∀ order, intoTensor c.dtype.value (.array ⟨.floating t, order⟩) = .ok t) ∧
      ((∃ a, d.toArray = .ok a ∧ a.elementType.Becomes c.dtype.value t.dtype) ∨
        form = .vector ∧ d.items = .ok [] ∧ t.dtype = c.dtype.value) ∧
      c.storedConversion.any data = .ok v ∧
      (∀ r, Action.setValue c.storedConversion.any r data =
        Action.setValue (fun _ => .ok v) r data) ∧
      ∀ (s : String) (g : Graph (Stored (Tensor Machine))), g.names.get? s = none →
        (Action.variableOf c.storedConversion (c.storedConversion.of form) s d).run g =
          ⟨.ok g.size, (g.append (.fresh .var (some v))).bindName s g.size,
            [.added g.size Kind.var.tag]⟩ := by
  intro v data
  have hv : c.storedConversion.of form d = .ok v := by
    rw [c.storedConversion_of, h]
    rfl
  have hagain : c.storedConversion.any data = .ok v := c.settled_storedConversion form d v hv
  refine ⟨fun order => ?_, c.dtype_conversion h, hagain, Action.setValue_congr hagain,
    fun s g hs => ?_⟩
  · obtain ⟨s, -, hst⟩ := c.conversion_of_eq_ok h
    exact intoTensor_array_floating hst order
  · rw [Action.run_variableOf_of_settled c.settled_storedConversion, hv]
    simp only [hs, Option.isSome_none, Bool.false_eq_true, if_false]

/-- A double-width complex number and a whole one, where single-width real numbers are asked for
and the bytes come in the other order. -/
theorem converted_once_of_wide_complex_numbers :
    let c : Config := ⟨⟨.float32, .big⟩, false⟩
    let d : Datum := .tuple [.complex ⟨1, 2⟩, .int 3]
    ∃ t, c.conversion.of .vector d = .ok t ∧ t.dtype = .complex128 ∧ t.shape = [2] ∧
      (∀ order, intoTensor .float32 (.array ⟨.floating t, order⟩) = .ok t) ∧
      IsLUB {DType.complex128, .float32} t.dtype ∧
      ((Action.variableOf c.storedConversion (c.storedConversion.of .vector) "x" d).run
        Graph.empty).graph.value? 0 = some (.native t) := by
  intro c d
  have hok : ∃ t, c.conversion.of .vector d = .ok t ∧ t.dtype = .complex128 ∧ t.shape = [2] :=
    ⟨_, rfl, rfl, rfl⟩
  obtain ⟨t, ht, hdtype, hshape⟩ := hok
  obtain ⟨hagain, -, -, -, hrun⟩ := converted_once c .vector d ht
  refine ⟨t, ht, hdtype, hshape, hagain, ?_, ?_⟩
  · rw [hdtype]
    exact DType.isLUB_join .complex128 .float32
  · rw [hrun "x" Graph.empty rfl]
    have hstored : c.stored t = .native t := by
      rw [Config.stored, if_neg]
      rw [hdtype]
      decide
    rw [hstored]
    rfl

/-- A vector is made of a list of the items. Where there are none, nothing tells of complex
numbers. -/
theorem real_vector_of_empty_complex_array :
    let d : Datum := .ofArray (.floating ⟨.complex64, .constant [0] (Arithmetic.zero .complex64)⟩)
    ∃ a t, d.toArray = .ok a ∧ a.elementType = .floating .complex64 ∧
      vectorTensor .float64 d = .ok t ∧ t.dtype = .float64 ∧
      ¬ IsLUB {DType.complex64, .float64} t.dtype := by
  intro d
  refine ⟨_, _, rfl, rfl, rfl, rfl, fun h => ?_⟩
  have hlt : (DType.complex64 : DType) ≤ .float64 := h.1 (Set.mem_insert _ _)
  exact absurd (hlt.1 rfl) (by decide)

end DiffGraph
