import DiffGraph.Proofs.Engine.Session
import DiffGraph.Proofs.Graph.Unfolding

/-!
# Cached values are current

In a coherent graph every value that is held is the one that the operator gives on the values that
the operands hold now. Every change keeps a graph coherent: an evaluation stores a value only when
the operands are known, and an assignment drops all the values that it makes stale. Evaluating a
node therefore gives the value of the expression tree that it unfolds to, or its first failure.
-/

namespace DiffGraph

namespace Graph

variable {D V E : Type} {rules : Rules V E} {g h : Graph V} {n : Nat}

/-- Every value that a node holds is what it applies to the values that its operands hold. -/
def Coherent (rules : Rules V E) (g : Graph V) : Prop :=
  ∀ n v, g.value? n = some v → g.result rules n = .ok v

/-! ## Recomputing a node -/

/-- A recomputation depends on what the node applies, on its operands' values and, at a leaf, on
its own. -/
theorem result_congr {app : Application}
    (ha : (g.application n : Except (Fault E) Application) = .ok app)
    (e : (h.application n : Except (Fault E) Application) = g.application n)
    (eo : ∀ a ∈ app.operands, h.value? a = g.value? a)
    (el : app = .leaf → h.value? n = g.value? n) :
    h.result rules n = g.result rules n := by
  unfold result operandValue
  rw [e, ha]
  cases app with
  | leaf => simp [el rfl]
  | unary op a => simp [eo a (by simp [Application.operands])]
  | binary op l r =>
      simp [eo l (by simp [Application.operands]), eo r (by simp [Application.operands])]

theorem result_leaf (ha : (g.application n : Except (Fault E) Application) = .ok .leaf) :
    g.result rules n = g.operandValue n := by
  simp [result, ha]

theorem result_unary {op : Unary} {a : Nat}
    (ha : (g.application n : Except (Fault E) Application) = .ok (.unary op a)) :
    g.result rules n = g.operandValue a >>= fun x => (rules.unary op x).mapError .rule := by
  simp [result, ha]

theorem result_binary {op : Binary} {l r : Nat}
    (ha : (g.application n : Except (Fault E) Application) = .ok (.binary op l r)) :
    g.result rules n = g.operandValue l >>= fun x => g.operandValue r >>= fun y =>
      (rules.binary op x y).mapError .rule := by
  simp [result, ha]

theorem operands_of_result {app : Application} {v : V}
    (ha : (g.application n : Except (Fault E) Application) = .ok app)
    (hr : g.result rules n = .ok v) : ∀ a ∈ app.operands, ∃ x, g.value? a = some x := by
  cases app with
  | leaf =>
      intro a hm
      cases hm
  | unary op a =>
      rw [result_unary ha] at hr
      obtain ⟨x, hx, -⟩ := Except.bind_eq_ok_iff.1 hr
      intro b hb
      rw [List.mem_singleton.1 hb]
      exact ⟨x, operandValue_eq_ok_iff.1 hx⟩
  | binary op l r =>
      rw [result_binary ha] at hr
      obtain ⟨x, hx, hr⟩ := Except.bind_eq_ok_iff.1 hr
      obtain ⟨y, hy, -⟩ := Except.bind_eq_ok_iff.1 hr
      intro b hb
      simp only [Application.operands, List.mem_cons, List.not_mem_nil, or_false] at hb
      rcases hb with rfl | rfl
      · exact ⟨x, operandValue_eq_ok_iff.1 hx⟩
      · exact ⟨y, operandValue_eq_ok_iff.1 hy⟩

theorem Enriches.result {v : V} (he : g.Enriches h) (hr : g.result rules n = .ok v) :
    h.result rules n = .ok v := by
  obtain ⟨app, ha, -⟩ := Except.bind_eq_ok_iff.1 hr
  rw [← hr]
  refine result_congr ha (application_congr he.skeleton n) ?_ ?_
  · intro a hm
    obtain ⟨x, hx⟩ := operands_of_result ha hr a hm
    rw [hx, he.keeps a x hx]
  · rintro rfl
    rw [result_leaf ha, operandValue_eq_ok_iff] at hr
    rw [hr, he.keeps n v hr]

theorem Coherent.unary (hc : Coherent rules g) {v : V} (hv : g.value? n = some v) {op : Unary}
    {a : Nat} (ha : (g.application n : Except (Fault E) Application) = .ok (.unary op a)) :
    ∃ x, g.value? a = some x ∧ rules.unary op x = .ok v := by
  have hr := hc n v hv
  rw [result_unary ha] at hr
  obtain ⟨x, hx, hr⟩ := Except.bind_eq_ok_iff.1 hr
  exact ⟨x, operandValue_eq_ok_iff.1 hx, Except.mapError_eq_ok_iff.1 hr⟩

theorem Coherent.binary (hc : Coherent rules g) {v : V} (hv : g.value? n = some v) {op : Binary}
    {l r : Nat} (ha : (g.application n : Except (Fault E) Application) = .ok (.binary op l r)) :
    ∃ x y, g.value? l = some x ∧ g.value? r = some y ∧ rules.binary op x y = .ok v := by
  have hr := hc n v hv
  rw [result_binary ha] at hr
  obtain ⟨x, hx, hr⟩ := Except.bind_eq_ok_iff.1 hr
  obtain ⟨y, hy, hr⟩ := Except.bind_eq_ok_iff.1 hr
  exact ⟨x, y, operandValue_eq_ok_iff.1 hx, operandValue_eq_ok_iff.1 hy,
    Except.mapError_eq_ok_iff.1 hr⟩

theorem Coherent.cases (hc : Coherent rules g) {v : V} (hv : g.value? n = some v) :
    (g.application n : Except (Fault E) Application) = .ok .leaf ∨
      (∃ op a x, (g.application n : Except (Fault E) Application) = .ok (.unary op a) ∧
        g.value? a = some x ∧ rules.unary op x = .ok v) ∨
      ∃ op l r x y, (g.application n : Except (Fault E) Application) = .ok (.binary op l r) ∧
        g.value? l = some x ∧ g.value? r = some y ∧ rules.binary op x y = .ok v := by
  obtain ⟨app, ha, -⟩ := Except.bind_eq_ok_iff.1 (hc n v hv)
  cases app with
  | leaf => exact .inl ha
  | unary op a =>
      obtain ⟨x, hx, hval⟩ := hc.unary hv ha
      exact .inr (.inl ⟨op, a, x, ha, hx, hval⟩)
  | binary op l r =>
      obtain ⟨x, y, hx, hy, hval⟩ := hc.binary hv ha
      exact .inr (.inr ⟨op, l, r, x, y, ha, hx, hy, hval⟩)

/-! ## What keeps a graph coherent -/

theorem Coherent.empty : Coherent rules (Graph.empty : Graph V) := by
  intro n v hv
  simp [Graph.empty, value?] at hv

theorem Coherent.withValue (hc : Coherent rules g) {v : V} (hv : g.value? n = none)
    (hk : (g.kind? n).any Kind.isOperator) (hr : g.result rules n = .ok v) :
    Coherent rules (g.withValue n (some v)) := by
  have he : g.Enriches (g.withValue n (some v)) := (Enriches.refl g).withValue v hv hk
  intro m w hw
  rw [value?_withValue] at hw
  split at hw
  · rename_i hm
    rw [hm.1, ← Option.some.inj hw]
    exact he.result hr
  · exact he.result (hc m w hw)

/-- What an evaluation keeps after the operands of a node. -/
theorem Recalls.keep {app : Application} {done : List Nat} {v : V}
    (hr : Recalls rules g app.operands ⟨.ok (), h, done⟩) (hg : g.WellFormed)
    (hv : g.value? n = none) (ha : (g.awaited n : Except (Fault E) Application) = .ok app)
    (hres : h.result rules n = .ok v) (hc : Coherent rules h) :
    Coherent rules (h.withValue n (some v)) := by
  refine hc.withValue (hr.ready hg.ascending hv ha).1 ?_ hres
  rw [kind?_congr hr.enriches.skeleton]
  exact (awaited_eq_ok_iff.1 ha).1

/-- Every recomputation that an evaluation stores is current. -/
theorem Recalls.coherent {ns : List Nat} {ev : Evaluation V E} (hr : Recalls rules g ns ev)
    (hg : g.WellFormed) (hc : Coherent rules g) : Coherent rules ev.graph := by
  induction hr with
  | nil => exact hc
  | held _ _ ih => exact ih hg hc
  | fault => exact hc
  | operand _ _ _ ih => exact ih hg hc
  | rule _ _ _ _ ih => exact ih hg hc
  | @computed g h k n ns done later app v outcome hv ha hr hres _ ih₁ ih₂ =>
      have he := hr.enriches.withValue v hv (awaited_eq_ok_iff.1 ha).1
      exact ih₂ (he.wellFormed hg) (hr.keep hg hv ha hres (ih₁ hg hc))

/-- A graph is coherent whatever its gradients. -/
theorem Coherent.congr (hc : Coherent rules g) (e : h.withoutDerivs = g.withoutDerivs) :
    Coherent rules h := by
  intro n v hv
  have hr : h.result rules n = g.result rules n := by
    unfold result operandValue
    simp only [application_congr (skeleton_congr e), value?_congr e]
  rw [value?_congr e] at hv
  rw [hr]
  exact hc n v hv

/-- A graph is coherent again when it has grown by nodes that hold a value only if they are
leaves. -/
theorem Coherent.grow (hc : Coherent rules g) (hk : ∀ m < g.size, h.kind? m = g.kind? m)
    (hi : ∀ m < g.size, h.inputsOf m = g.inputsOf m)
    (hv : ∀ m < g.size, h.value? m = g.value? m)
    (hnew : ∀ m v, g.size ≤ m → h.value? m = some v →
      (h.application m : Except (Fault E) Application) = .ok .leaf) :
    Coherent rules h := by
  intro m v hm
  rcases Nat.lt_or_ge m g.size with hlt | hge
  · rw [hv m hlt] at hm
    have hr := hc m v hm
    obtain ⟨app, ha, -⟩ := Except.bind_eq_ok_iff.1 hr
    rw [← hr]
    refine result_congr ha (application_ext (hk m hlt) (hi m hlt)) ?_ fun _ => hv m hlt
    intro a hma
    obtain ⟨x, hx⟩ := operands_of_result ha hr a hma
    exact hv a (lt_size_of_value? hx)
  · rw [result_leaf (hnew m v hge hm), operandValue_eq_ok_iff]
    exact hm

theorem Coherent.append_leaf (hc : Coherent rules g) {k : Kind}
    {v : Option V} (hk : k = .const ∨ k = .var) : Coherent rules (g.append (.fresh k v)) := by
  refine hc.grow ?_ (fun m _ => inputsOf_append_fresh g k v m) ?_ ?_
  · intro m hm
    rw [kind?_append, if_neg (Nat.ne_of_lt hm)]
  · intro m hm
    rw [value?_append, if_neg (Nat.ne_of_lt hm)]
  · intro m w hm hw
    have hlt := lt_size_of_value? hw
    rw [size_append] at hlt
    have hm' : m = g.size := by omega
    rw [application_eq_leaf_iff, kind?_append, if_pos hm']
    exact hk.imp (congrArg some) (congrArg some)

theorem Coherent.appendOperator (hc : Coherent rules g) (k : Kind) (operands : List Nat) :
    Coherent rules (g.appendOperator k operands) := by
  refine hc.grow ?_ ?_ (fun m _ => value?_appendOperator g k operands m) ?_
  · intro m hm
    rw [kind?_appendOperator, if_neg (Nat.ne_of_lt hm)]
  · intro m hm
    rw [inputsOf_appendOperator, if_neg (Nat.ne_of_lt hm)]
  · intro m w hm hw
    rw [value?_appendOperator, value?_eq_none_of_size_le hm] at hw
    cases hw

/-- An assignment drops every value that rests on the old one. -/
theorem Coherent.assign (hc : Coherent rules g) (hg : g.WellFormed)
    (hn : g.kind? n = some .var) (v : V) :
    Coherent rules (invalidate (g.withValue n (some v)) n : Invalidation V E).graph := by
  have ha := hg.assigned hn v
  have hd := drops_invalidate (E := E) ha.consumersValid n
  have hsk := hd.skeleton.trans (skeleton_withValue g n _)
  intro m w hw
  have hm : m < g.size := by
    rw [← size_congr hsk]
    exact lt_size_of_value? hw
  obtain ⟨app, happ⟩ := hg.exists_application (E := E) hm
  have happ' := (application_congr (E := E) hsk m).trans happ
  by_cases hl : app = .leaf
  · rw [hl] at happ'
    rw [result_leaf happ', operandValue_eq_ok_iff]
    exact hw
  · have hop := isOperator_of_application happ hl
    have hop' : ((g.withValue n (some v)).kind? m).any Kind.isOperator := by
      rwa [kind?_congr (skeleton_withValue g n _)]
    have hdown : ¬ (g.withValue n (some v)).Downstream n m := by
      intro hdown
      rw [hd.dropped m hdown hop'] at hw
      cases hw
    have hmn : m ≠ n := by
      rintro rfl
      simp [hn, Kind.isOperator] at hop
    rw [hd.kept m (.inl hdown), value?_withValue_ne g n _ hmn] at hw
    rw [← hc m w hw]
    refine result_congr happ (application_congr hsk m) ?_ (fun h => (hl h).elim)
    intro a hma
    -- an operand that changed would have put the node downstream
    have hf : (g.withValue n (some v)).Feeds a m := by
      rw [ha.feeds_iff, inputsOf_congr (skeleton_withValue g n _)]
      exact mem_inputsOf_of_application happ hma
    have han : a ≠ n := by
      rintro rfl
      exact hdown (.single hf)
    rw [hd.kept a (.inl fun h => hdown (h.tail hf)), value?_withValue_ne g n _ han]

theorem Change.coherent (hs : Change rules g h) (hg : g.WellFormed) (hc : Coherent rules g) :
    Coherent rules h := by
  cases hs with
  | constant v => exact hc.append_leaf (.inl rfl)
  | emptyVariable s => exact hc.append_leaf (v := none) (.inr rfl)
  | unary op a => exact hc.appendOperator _ _
  | binary op l r => exact hc.appendOperator _ _
  | name s n => exact hc
  | assign n v hn => exact hc.assign hg hn v
  | evaluate n hn => exact (recalls_evaluate rules hg.ascending hn).coherent hg hc
  | sweep n v => exact hc.congr (withoutDerivs_sweep g n v)
  | clear => exact hc.congr (withoutDerivs_withoutDerivs g)

theorem coherent_of_changes (hs : Relation.ReflTransGen (Change rules) g h) (hg : g.WellFormed)
    (hc : Coherent rules g) : h.WellFormed ∧ Coherent rules h := by
  induction hs with
  | refl => exact ⟨hg, hc⟩
  | tail _ hstep ih => exact ⟨hstep.wellFormed ih.1, hstep.coherent ih.1 ih.2⟩

theorem coherent_after (conversion : Conversion D V E) (rules : Rules V E)
    (calls : List (Call D)) :
    (Graph.empty.after conversion rules calls).WellFormed ∧
      Coherent rules (Graph.empty.after conversion rules calls) :=
  coherent_of_changes (changes_after conversion rules calls Graph.empty) .empty .empty

end Graph

end DiffGraph
