import DiffGraph.Proofs.Engine.Holding

/-!
# The element type of a graph

Every rule of the operators gives tensors of the element type that all its arguments have: two
tensors of one element type meet in that type, a bare number that was read off such a tensor does
not widen it, and sums, functions and ones are of the type of their argument. Where all data is
real, or the element type is complex, the leaves have the element type of the graph, and so has
everything that is computed from them.
-/

namespace DiffGraph

variable {A : DType → Type} [Arithmetic A] {e : DType}

/-! ## Operations -/

namespace Tensor

variable {l r t : Tensor A}

theorem dtype_zip {f : {d : DType} → A d → A d → A d} (hl : l.dtype = e) (hr : r.dtype = e)
    (h : zip f l r = .ok t) : t.dtype = e := by
  unfold zip at h
  split at h
  · cases h
  · rw [← Except.ok.inj h]
    simp only [hl, hr, DType.join_self]

theorem dtype_timesNumber {d : DType} (x : A d) (hl : l.dtype = e) (hd : d = e) :
    (l.timesNumber x).dtype = e := by
  simp only [timesNumber, hl, hd, DType.withNumber_self]

theorem dtype_reduceTo {s : Shape} (h : t.reduceTo s = .ok r) : r.dtype = t.dtype := by
  obtain ⟨g, -, rfl⟩ := Except.map_eq_ok_iff.1 h
  rfl

/-- A tensor times the single entry of another. -/
theorem dtype_timesEntry (hl : l.dtype = e) (hr : r.dtype = e)
    (h : Operations.timesEntry l r = .ok t) : t.dtype = e := by
  obtain ⟨x, -, rfl⟩ := Except.map_eq_ok_iff.1 h
  exact dtype_timesNumber x hl hr

end Tensor

/-! ## Rules -/

namespace Unary

variable {a g t : Tensor A}

theorem dtype_value (op : Unary) (ha : a.dtype = e) (h : op.value a = .ok t) : t.dtype = e := by
  cases op with
  | square => exact Tensor.dtype_zip (l := a.conj) ha ha h
  | neg | exp | ln | sin | cos | tan | sinh | cosh | tanh =>
      cases h
      exact ha

theorem dtype_overSquare {c : Tensor A} (hg : g.dtype = e) (hc : c.dtype = e)
    (h : overSquare g c = .ok t) : t.dtype = e := by
  obtain ⟨u, hu, h⟩ := Except.bind_eq_ok_iff.1 h
  exact Tensor.dtype_zip hg (Tensor.dtype_zip hc hc hu) h

theorem dtype_pull (op : Unary) (ha : a.dtype = e) (hg : g.dtype = e) (h : op.pull a g = .ok t) :
    t.dtype = e := by
  cases op with
  | neg =>
      cases h
      exact hg
  | square => exact Tensor.dtype_zip (r := a.conj.twice) hg ha h
  | exp => exact Tensor.dtype_zip (r := a.elementary .exp) hg ha h
  | ln => exact Tensor.dtype_zip hg ha h
  | sin => exact Tensor.dtype_zip (r := a.elementary .cos) hg ha h
  | cos => exact Tensor.dtype_zip (r := (a.elementary .sin).neg) hg ha h
  | tan => exact dtype_overSquare (c := a.elementary .cos) hg ha h
  | sinh => exact Tensor.dtype_zip (r := a.elementary .cosh) hg ha h
  | cosh => exact Tensor.dtype_zip (r := a.elementary .sinh) hg ha h
  | tanh => exact dtype_overSquare (c := a.elementary .cosh) hg ha h

end Unary

namespace Binary

variable {l r g t : Tensor A} {ts : Tensor A × Tensor A}

theorem dtype_value (op : Binary) (hl : l.dtype = e) (hr : r.dtype = e)
    (h : op.value l r = .ok t) : t.dtype = e := by
  cases op with
  | add | mul | div => exact Tensor.dtype_zip hl hr h
  | dot =>
      obtain ⟨u, hu, h⟩ := Except.bind_eq_ok_iff.1 h
      cases h
      exact (Tensor.dtype_zip hl hr hu : u.dtype = e)

theorem dtype_localPull (op : Binary) (hl : l.dtype = e) (hr : r.dtype = e) (hg : g.dtype = e)
    (h : op.localPull l r g = .ok ts) : ts.1.dtype = e ∧ ts.2.dtype = e := by
  cases op with
  | add =>
      cases h
      exact ⟨hg, hg⟩
  | mul =>
      obtain ⟨left, hleft, h⟩ := Except.bind_eq_ok_iff.1 h
      obtain ⟨right, hright, h⟩ := Except.bind_eq_ok_iff.1 h
      cases h
      exact ⟨Tensor.dtype_zip hr hg hleft, Tensor.dtype_zip hl hg hright⟩
  | div =>
      obtain ⟨left, hleft, h⟩ := Except.bind_eq_ok_iff.1 h
      obtain ⟨negated, hnegated, h⟩ := Except.bind_eq_ok_iff.1 h
      obtain ⟨numerator, hnumerator, h⟩ := Except.bind_eq_ok_iff.1 h
      obtain ⟨square, hsquare, h⟩ := Except.bind_eq_ok_iff.1 h
      obtain ⟨right, hright, h⟩ := Except.bind_eq_ok_iff.1 h
      cases h
      cases hnegated
      have hn : numerator.dtype = e := Tensor.dtype_zip (l := l.neg) hl hg hnumerator
      exact ⟨Tensor.dtype_zip hg hr hleft,
        Tensor.dtype_zip hn (Tensor.dtype_zip hr hr hsquare) hright⟩
  | dot =>
      obtain ⟨left, hleft, h⟩ := Except.bind_eq_ok_iff.1 h
      obtain ⟨right, hright, h⟩ := Except.bind_eq_ok_iff.1 h
      cases h
      exact ⟨Tensor.dtype_timesEntry hr hg hleft, Tensor.dtype_timesEntry hl hg hright⟩

theorem dtype_pull (op : Binary) (hl : l.dtype = e) (hr : r.dtype = e) (hg : g.dtype = e)
    (h : op.pull l r g = .ok ts) : ts.1.dtype = e ∧ ts.2.dtype = e := by
  obtain ⟨locals, hlocals, h⟩ := Except.bind_eq_ok_iff.1 h
  obtain ⟨left, hleft, h⟩ := Except.bind_eq_ok_iff.1 h
  obtain ⟨right, hright, h⟩ := Except.bind_eq_ok_iff.1 h
  cases h
  obtain ⟨h₁, h₂⟩ := dtype_localPull op hl hr hg hlocals
  exact ⟨(Tensor.dtype_reduceTo hleft).trans h₁, (Tensor.dtype_reduceTo hright).trans h₂⟩

end Binary

/-- No rule leaves an element type. -/
theorem Tensor.rules_keep_dtype (e : DType) :
    (Tensor.rules A).Keep fun t => t.dtype = e where
  unary := Unary.dtype_value _
  binary := Binary.dtype_value _
  unaryPull := Unary.dtype_pull _
  binaryPull := Binary.dtype_pull _
  seed h := h
  add := Tensor.dtype_zip

/-- What is computed is stored in the machine's own order. -/
theorem Rules.Keep.stored {V E : Type} {rules : Rules V E} {P : V → Prop} (hr : rules.Keep P) :
    rules.stored.Keep fun x => P x.value ∧ x.order = .little := by
  have hnative : ∀ {x : Except E V} {v}, (∀ w, x = .ok w → P w) → x.map Stored.native = .ok v →
      P v.value ∧ v.order = .little := by
    intro x v hx hv
    obtain ⟨w, hw, rfl⟩ := Except.map_eq_ok_iff.1 hv
    exact ⟨hx w hw, rfl⟩
  refine ⟨fun hx h => hnative (fun w hw => hr.unary hx.1 hw) h,
    fun hx hy h => hnative (fun w hw => hr.binary hx.1 hy.1 hw) h,
    fun hx hd h => hnative (fun w hw => hr.unaryPull hx.1 hd.1 hw) h, ?_,
    fun hx => ⟨hr.seed hx.1, hx.2⟩,
    fun hx hy h => hnative (fun w hw => hr.add hx.1 hy.1 hw) h⟩
  intro op x y d v hx hy hd h
  obtain ⟨ds, hds, rfl⟩ := Except.map_eq_ok_iff.1 h
  obtain ⟨h₁, h₂⟩ := hr.binaryPull hx.1 hy.1 hd.1 hds
  exact ⟨⟨h₁, rfl⟩, h₂, rfl⟩

open DiffGraph.Graph

/-- In a session with a graph of an element type, where no complex data is handed in if the type is
real, everything that a node ever holds has exactly that element type. -/
theorem dtype_of_held (dtype : DType) (debug : Bool) (calls : List (Call Datum))
    (hreal : dtype.field = .real → ∀ call ∈ calls, ∀ s ∈ call.supply, s.2.IsReal) :
    let c : Config := ⟨.native dtype, debug⟩
    let g := Graph.empty.after c.storedConversion (Tensor.rules Machine).stored calls
    ∀ n x, g.value? n = some x ∨ g.deriv? n = some x → x.map Tensor.dtype = .native dtype := by
  intro c g
  have hg : g.Holds fun x => x.value.dtype = dtype ∧ x.order = .little := by
    refine holds_after c.settled_storedConversion (Tensor.rules_keep_dtype dtype).stored ?_
    intro call hcall s hs v hv
    have hmap := c.storedConversion_dtype (fun hr => hreal hr call hcall s hs) hv
    exact ⟨congrArg Stored.value hmap, congrArg Stored.order hmap⟩
  intro n x hx
  have hkept : x.value.dtype = dtype ∧ x.order = .little := hx.elim (hg.value n x) (hg.deriv n x)
  rw [Stored.map, hkept.1, hkept.2, Stored.native]

/-- The exponential of a truth value in a single-width graph, and its gradient. -/
theorem dtype_of_held_single_width :
    let c : Config := ⟨.native .float32, false⟩
    let calls : List (Call Datum) := [.constant .scalar (.bool true), .unary .exp (.node 0),
      .evalValue (.node 1), .evalDeriv (.node 1)]
    let g := Graph.empty.after c.storedConversion (Tensor.rules Machine).stored calls
    (∀ call ∈ calls, ∀ s ∈ call.supply, s.2.IsReal) ∧ (g.deriv? 0).isSome ∧
      ∀ n x, g.value? n = some x ∨ g.deriv? n = some x → x.map Tensor.dtype = .native .float32 := by
  intro c calls g
  have hreal : ∀ call ∈ calls, ∀ s ∈ call.supply, s.2.IsReal := by
    simp only [calls, List.forall_mem_cons, Call.supply]
    refine ⟨?_, nofun, nofun, nofun, nofun⟩
    intro s hs e he
    cases hs
    rw [Datum.types, List.mem_singleton] at he
    rw [he]
    trivial
  refine ⟨hreal, ?_, dtype_of_held .float32 false calls fun _ => hreal⟩
  decide +kernel

end DiffGraph
