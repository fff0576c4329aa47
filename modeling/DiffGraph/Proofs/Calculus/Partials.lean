import DiffGraph.Proofs.Calculus.Trees
import DiffGraph.Proofs.Engine.History
import DiffGraph.Proofs.Engine.PassShapes

/-!
# A reverse pass computes partial derivatives

On a graph whose leaves hold numbers, what arrives at a variable during a reverse pass adds up to
the partial derivative of the tree of the output with respect to that variable: by induction along
the visits, the arrivals below a node sum up to the gradient that came in there times the partial
derivative of the node's own tree. The value that an evaluation gives as a function of what is
assigned to the variable is the number of that same tree.
-/

namespace DiffGraph

variable {D : Type}

/-- Real numbers as data of their own; none is a vector. -/
noncomputable def Conversion.number : Conversion ℝ (Tensor RealScalars) TensorError where
  any x := .ok (Tensor.single (d := .float64) x)
  scalar x := .ok (Tensor.single (d := .float64) x)
  vector _ := .error (.rankMismatch 0 1)
  data := Tensor.entry

namespace Graph

/-- The number that a node holds. -/
noncomputable def number (g : Graph (Tensor RealScalars)) (n : Nat) : ℝ :=
  (g.value? n).elim 0 Tensor.entry

/-- The gradient of a node as a number, zero where no pass has come. -/
noncomputable def gradient (g : Graph (Tensor RealScalars)) (n : Nat) : ℝ :=
  (g.deriv? n).elim 0 Tensor.entry

/-- All constants and variables hold tensors of rank 0. -/
def Numeric (g : Graph (Tensor RealScalars)) : Prop :=
  ∀ m, g.kind? m = some .const ∨ g.kind? m = some .var → ∃ s, g.value? m = some s ∧ s.shape = []

/-- A node can be differentiated at the values that its operands hold: a divisor is not zero, a
logarithm is taken of a positive number, and a tangent where the cosine is not zero. -/
def Regular (g : Graph (Tensor RealScalars)) (n : Nat) : Prop :=
  (∀ op a x, (g.application n : Except (Fault TensorError) Application) = .ok (.unary op a) →
    g.value? a = some x → op.Regular x.entry) ∧
  ∀ op l r x y, (g.application n : Except (Fault TensorError) Application) = .ok (.binary op l r) →
    g.value? l = some x → g.value? r = some y → op.Regular x.entry y.entry

/-- What the evaluation of a node answers after a number was assigned to a variable. -/
noncomputable def valueAt (g : Graph (Tensor RealScalars)) (n v : Nat) (x : ℝ) :
    Except (Fault TensorError) (Tensor RealScalars) :=
  let action : Action (Tensor RealScalars) TensorError (Tensor RealScalars) := do
    Action.setValue Conversion.number.any (.node v) x
    Action.evalValue (Tensor.rules RealScalars) (.node n)
  (action.run g).outcome

variable {g h : Graph (Tensor RealScalars)} {n v : Nat} {t : Unfolding}
  {d s : Tensor RealScalars} {x z : ℝ} {vs : List (Visit (Tensor RealScalars))}

/-! ## Values -/

theorem Numeric.operandValue (hn : g.Numeric) {m : Nat}
    (hk : g.kind? m = some .const ∨ g.kind? m = some .var) :
    ∃ s, (g.operandValue m : Except (Fault TensorError) (Tensor RealScalars)) = .ok s ∧
      s.IsNumber (g.number m) := by
  obtain ⟨s, hs, hshape⟩ := hn m hk
  refine ⟨s, operandValue_eq_ok_iff.2 hs, ?_⟩
  rw [number, hs]
  exact .of_shape hshape

theorem Numeric.congr (hn : g.Numeric) (e : h.skeleton = g.skeleton)
    (hv : ∀ m, (g.kind? m).any Kind.isOperator = false → h.value? m = g.value? m) : h.Numeric := by
  intro m hk
  rw [kind?_congr e] at hk
  rw [hv m (by rcases hk with hk | hk <;> rw [hk] <;> rfl)]
  exact hn m hk

theorem Numeric.tree_value (hn : g.Numeric) (ht : g.Unfolds n t) :
    ∃ s, t.value (Tensor.rules RealScalars) g.operandValue = .ok s ∧
      s.IsNumber (t.number g.number) :=
  Unfolding.value_number fun _ hm => hn.operandValue (ht.kind?_of_mem_leaves hm)

theorem Coherent.isNumber (hc : Coherent (Tensor.rules RealScalars) g) (hn : g.Numeric)
    (ht : g.Unfolds n t) (hs : g.value? n = some s) : s.IsNumber (t.number g.number) := by
  obtain ⟨s', hs', hnum⟩ := hn.tree_value ht
  rw [hc.tree_value ht hs] at hs'
  rw [Except.ok.inj hs']
  exact hnum

theorem Coherent.shape_eq_nil (hc : Coherent (Tensor.rules RealScalars) g) (hn : g.Numeric)
    (hg : g.WellFormed) (hs : g.value? n = some s) : s.shape = [] := by
  obtain ⟨t, ht⟩ := hg.exists_unfolds (lt_size_of_value? hs)
  exact (hc.isNumber hn ht hs).shape

theorem Coherent.tree_regular (hc : Coherent (Tensor.rules RealScalars) g) (hn : g.Numeric)
    (ht : g.Unfolds n t) (hs : g.value? n = some s) (hreg : ∀ m, g.Reaches n m → g.Regular m) :
    t.Regular g.number := by
  induction ht generalizing s with
  | leaf => trivial
  | @unary n a op t hk hi ht ih =>
      have ha := application_eq_unary_iff (E := TensorError) |>.2 ⟨hk, hi⟩
      have huse : g.Uses n a := by simp [Uses, hi]
      obtain ⟨x, hx, -⟩ := hc.unary hs ha
      refine ⟨ih hx fun m hm => hreg m (hm.head huse), ?_⟩
      rw [← (hc.isNumber hn ht hx).entry]
      exact (hreg n .refl).1 op a x ha hx
  | @binary n l r op tl tr hk hi htl htr ihl ihr =>
      have ha := application_eq_binary_iff (E := TensorError) |>.2 ⟨hk, hi⟩
      have huse : g.Uses n l ∧ g.Uses n r := by simp [Uses, hi]
      obtain ⟨x, y, hx, hy, -⟩ := hc.binary hs ha
      refine ⟨ihl hx fun m hm => hreg m (hm.head huse.1),
        ihr hy fun m hm => hreg m (hm.head huse.2), ?_⟩
      rw [← (hc.isNumber hn htl hx).entry, ← (hc.isNumber hn htr hy).entry]
      exact (hreg n .refl).2 op l r x y ha hx hy

/-- After an assignment the output is the number of its tree with that variable replaced. -/
theorem exists_valueAt (hg : g.WellFormed) (hc : Coherent (Tensor.rules RealScalars) g)
    (hn : g.Numeric) (hlt : n < g.size) (ht : g.Unfolds n t) (hk : g.kind? v = some .var) (x : ℝ) :
    ∃ y, g.valueAt n v x = .ok y ∧ y.IsNumber (t.number (Function.update g.number v x)) := by
  let w : Tensor RealScalars := Tensor.single (d := .float64) x
  let k := (invalidate (g.withValue v (some w)) v : Invalidation _ TensorError).graph
  have hchange : Change (Tensor.rules RealScalars) g k := .assign g v w hk
  have hd := drops_invalidate (E := TensorError) (hg.assigned hk w).consumersValid v
  have hsk : k.skeleton = g.skeleton := hd.skeleton.trans (skeleton_withValue g v _)
  have hout : g.valueAt n v x = t.value (Tensor.rules RealScalars) k.operandValue := by
    have hw : Conversion.number.any x = .ok w := rfl
    obtain ⟨events, hrun⟩ := hg.run_setValue hk hw
    simp only [valueAt, Action.run_bind, hrun]
    exact outcome_evalValue (hchange.wellFormed hg) (hchange.coherent hg hc)
      (by rwa [size_congr hsk]) (ht.congr hsk)
  rw [hout]
  refine Unfolding.value_number fun m hm => ?_
  have hleaf := ht.kind?_of_mem_leaves hm
  have hkept : k.value? m = (g.withValue v (some w)).value? m := by
    refine hd.kept m (.inr ?_)
    rw [kind?_congr (skeleton_withValue g v _)]
    rcases hleaf with h | h <;> rw [h] <;> rfl
  by_cases hmv : m = v
  · subst hmv
    rw [value?_withValue_self g m _ (lt_size_of_kind? hk)] at hkept
    rw [Function.update_self]
    exact ⟨w, operandValue_eq_ok_iff.2 hkept, .single x⟩
  · rw [value?_withValue_ne g v _ hmv] at hkept
    obtain ⟨s, hs, hnum⟩ := hn.operandValue hleaf
    rw [Function.update_of_ne hmv]
    exact ⟨s, operandValue_eq_ok_iff.2 (hkept.trans (operandValue_eq_ok_iff.1 hs)), hnum⟩

/-! ## Gradients -/

/-- The arrivals are numbers with a given sum. -/
def SumsTo (ds : List (Tensor RealScalars)) (x : ℝ) : Prop :=
  (∀ d ∈ ds, d.shape = []) ∧ (ds.map Tensor.entry).sum = x

theorem SumsTo.append {ds es : List (Tensor RealScalars)} {y : ℝ} (hd : SumsTo ds x)
    (he : SumsTo es y) : SumsTo (ds ++ es) (x + y) := by
  refine ⟨fun d hm => ?_, by rw [List.map_append, List.sum_append, hd.2, he.2]⟩
  exact (List.mem_append.1 hm).elim (hd.1 d) (he.1 d)

/-- What arrives at a variable is the gradient that came in times the partial derivative. -/
theorem Visits.sumsTo (hv : Visits (Tensor.rules RealScalars) g n d vs)
    (hc : Coherent (Tensor.rules RealScalars) g) (hn : g.Numeric) (hk : g.kind? v = some .var)
    (ht : g.Unfolds n t) (hd : d.IsNumber z) :
    SumsTo (arrivals vs v) (z * t.slope g.number v) := by
  have hne {m : Nat} (hop : (g.kind? m).any Kind.isOperator) : m ≠ v := by
    rintro rfl
    rw [hk] at hop
    cases hop
  induction hv generalizing t z with
  | @leaf n d hl =>
      rw [ht.eq_leaf hl, Unfolding.slope]
      by_cases hnv : n = v
      · rw [if_pos hnv, mul_one]
        subst hnv
        rw [arrivals_cons_self (⟨[], n, d⟩ : Visit (Tensor RealScalars)) []]
        simpa [SumsTo, arrivals] using ⟨hd.shape, hd.entry⟩
      · rw [if_neg hnv, mul_zero, arrivals_cons_ne hnv]
        simp [SumsTo, arrivals]
  | @unary n a op d x da vs hl hx hp hv ih =>
      obtain ⟨s, rfl, hs⟩ := ht.eq_unary hl
      have hop := isOperator_of_application hl (by simp)
      obtain ⟨da', hp', hda⟩ := op.pull_number (hc.isNumber hn hs hx) hd
      rw [Except.ok.inj (hp'.symm.trans hp)] at hda
      rw [arrivals_cons_ne (hne hop), arrivals_map_below, Unfolding.slope, ← mul_assoc]
      exact ih hs hda
  | @binary n l r op d x y dl dr vs ws hl hx hy hp hv hw ihl ihr =>
      obtain ⟨s, u, rfl, hs, hu⟩ := ht.eq_binary hl
      have hop := isOperator_of_application hl (by simp)
      obtain ⟨dl', dr', hp', hdl, hdr⟩ :=
        op.pull_number (hc.isNumber hn hs hx) (hc.isNumber hn hu hy) hd
      obtain ⟨rfl, rfl⟩ := Prod.mk.inj (Except.ok.inj (hp'.symm.trans hp))
      rw [arrivals_cons_ne (hne hop), arrivals_append, arrivals_map_below, arrivals_map_below,
        Unfolding.slope, mul_add, ← mul_assoc, ← mul_assoc]
      exact (ihl hs hdl).append (ihr hu hdr)

theorem foldlM_add_number {c total : Tensor RealScalars} {cs : List (Tensor RealScalars)} {y : ℝ}
    (hx : c.IsNumber x) (hcs : SumsTo cs y)
    (hf : cs.foldlM (Tensor.rules RealScalars).add c = .ok total) : total.IsNumber (x + y) := by
  induction cs generalizing c x y with
  | nil =>
      have hy : 0 = y := hcs.2
      cases hf
      rwa [← hy, add_zero]
  | cons b cs ih =>
      obtain ⟨s, hs, hnum⟩ := hx.add (.of_shape (hcs.1 b List.mem_cons_self))
      have hsum := hcs.2
      rw [List.foldlM_cons, show (Tensor.rules RealScalars).add c b = .ok s from hs] at hf
      rw [List.map_cons, List.sum_cons] at hsum
      rw [← hsum, ← add_assoc]
      exact ih hnum ⟨fun e he => hcs.1 e (List.mem_cons_of_mem b he), rfl⟩ hf

/-- The gradient that a pass leaves at a variable is the partial derivative of the tree. -/
theorem gradient_sweep (hg : g.WellFormed) (hc : Coherent (Tensor.rules RealScalars) g)
    (hn : g.Numeric) (hs : g.value? n = some s) (ht : g.Unfolds n t) (hk : g.kind? v = some .var)
    (hok : (sweep (Tensor.rules RealScalars) g n s).outcome = .ok ()) :
    (∀ d, (sweep (Tensor.rules RealScalars) g n s).graph.deriv? v = some d → d.shape = []) ∧
      (sweep (Tensor.rules RealScalars) g n s).graph.gradient v = t.slope g.number v := by
  obtain ⟨vs, hv, ha, -⟩ := visits_of_sweep hok
  have hsize : ∀ w ∈ vs, w.node < g.withoutDerivs.size := by
    simpa using hv.lt_size hg (lt_size_of_value? hs)
  have hsum := hv.sumsTo hc hn hk ht (hc.isNumber hn ht hs).onesLike
  rw [one_mul] at hsum
  rcases accumulate_none ha hsize (deriv?_withoutDerivs g v) with ⟨hnil, hd⟩ |
    ⟨c, cs, total, harr, hfold, hd⟩
  · rw [hnil] at hsum
    rw [gradient, hd]
    refine ⟨fun d hd' => ?_, hsum.2⟩
    cases hd'
  · rw [harr] at hsum
    have hnum := foldlM_add_number (.of_shape (hsum.1 c List.mem_cons_self))
      ⟨fun d hm => hsum.1 d (List.mem_cons_of_mem c hm), rfl⟩ hfold
    rw [gradient, hd]
    refine ⟨fun d hd' => ?_, hnum.entry.trans ?_⟩
    · rw [← Option.some.inj hd']
      exact hnum.shape
    · rw [← hsum.2, List.map_cons, List.sum_cons]

theorem outcome_sweep_number (hg : g.WellFormed) (hc : Coherent (Tensor.rules RealScalars) g)
    (hn : g.Numeric) (hs : g.value? n = some s) :
    (sweep (Tensor.rules RealScalars) g n s).outcome = .ok () := by
  rcases (sweep_shaped hg hc hs).2 with ⟨hok, -⟩ | ⟨m, -, -, ⟨l, r, x, y, -, hx, hy, hfit⟩, -, -⟩
  · exact hok
  · have hxy := (hc.shape_eq_nil hn hg hx).trans (hc.shape_eq_nil hn hg hy).symm
    exact (hfit (.inl hxy)).elim

/-- From an evaluated output where every operator below it is regular, a pass leaves at a variable
the partial derivative of what the output evaluates to. -/
theorem sweep_hasDerivAt (hg : g.WellFormed) (hc : Coherent (Tensor.rules RealScalars) g)
    (hn : g.Numeric) (hs : g.value? n = some s) (hregular : ∀ m, g.Reaches n m → g.Regular m)
    (hk : g.kind? v = some .var) :
    let h := (sweep (Tensor.rules RealScalars) g n s).graph
    (∀ d, h.deriv? v = some d → d.shape = []) ∧
      ∃ f : ℝ → ℝ, (∀ x, ∃ y, h.valueAt n v x = .ok y ∧ y.IsNumber (f x)) ∧
        HasDerivAt f (h.gradient v) (g.number v) := by
  intro h
  have e : h.withoutDerivs = g.withoutDerivs := withoutDerivs_sweep g n s
  have hsk : h.skeleton = g.skeleton := skeleton_congr e
  have hvalue : ∀ m, h.value? m = g.value? m := value?_congr e
  have hchange : Change (Tensor.rules RealScalars) g h := .sweep g n s hs
  obtain ⟨t, ht⟩ := hg.exists_unfolds (lt_size_of_value? hs)
  obtain ⟨hshape, hgradient⟩ :=
    gradient_sweep hg hc hn hs ht hk (outcome_sweep_number hg hc hn hs)
  refine ⟨hshape, fun x => t.number (Function.update g.number v x), fun x => ?_, ?_⟩
  · have hnumber : h.number = g.number := by
      funext m
      rw [number, number, hvalue]
    have hlt : n < h.size := by
      rw [size_congr hsk]
      exact lt_size_of_value? hs
    rw [← hnumber]
    exact exists_valueAt (hchange.wellFormed hg) (hchange.coherent hg hc)
      (hn.congr hsk fun m _ => hvalue m) hlt (ht.congr hsk) ((kind?_congr hsk v).trans hk) x
  · rw [hgradient]
    exact Unfolding.hasDerivAt_number v (hc.tree_regular hn ht hs hregular)

end Graph

open DiffGraph.Graph

/-- On numbers, and where no operator below the output is at a singular point, an evaluation and a
reverse pass from the output succeed. For every variable the gradient, zero where the pass did not
come, is then the partial derivative, at the number that the variable holds, of what the output
evaluates to as a function of the number assigned to the variable. -/
theorem evalDeriv_hasDerivAt (conversion : Conversion D (Tensor RealScalars) TensorError)
    (calls : List (Call D)) (n : Nat)
    (hn : n < (Graph.empty.after conversion (Tensor.rules RealScalars) calls).size)
    (hleaves : (Graph.empty.after conversion (Tensor.rules RealScalars) calls).Numeric)
    (hregular : ∀ m, (Graph.empty.after conversion (Tensor.rules RealScalars) calls).Reaches n m →
      ((Action.evalValue (Tensor.rules RealScalars) (.node n)).run
        (Graph.empty.after conversion (Tensor.rules RealScalars) calls)).graph.Regular m) :
    let g := Graph.empty.after conversion (Tensor.rules RealScalars) calls
    let evaluated := (Action.evalValue (Tensor.rules RealScalars) (.node n)).run g
    let swept := (Action.evalDeriv (Tensor.rules RealScalars) (.node n)).run evaluated.graph
    (∃ y, evaluated.outcome = .ok y ∧ y.shape = []) ∧ swept.outcome = .ok () ∧
      ∀ v, g.kind? v = some .var →
        (∀ d, swept.graph.deriv? v = some d → d.shape = []) ∧
        ∃ f : ℝ → ℝ, (∀ x, ∃ y, swept.graph.valueAt n v x = .ok y ∧ y.IsNumber (f x)) ∧
          HasDerivAt f (swept.graph.gradient v) (g.number v) := by
  intro g evaluated swept
  obtain ⟨hg, hc⟩ := coherent_after conversion (Tensor.rules RealScalars) calls
  obtain ⟨t, ht⟩ := hg.exists_unfolds hn
  obtain ⟨y, hy, hynum⟩ := hleaves.tree_value ht
  have hout : evaluated.outcome = .ok y := (outcome_evalValue hg hc hn ht).trans hy
  have he : g.Enriches evaluated.graph := enriches_evalValue hg hn
  -- the pass starts from the evaluated graph
  obtain ⟨hg', hc'⟩ := coherent_of_changes (changes_evalValue _ (.node n) g) hg hc
  have hn' : evaluated.graph.Numeric := hleaves.congr he.skeleton he.leaves
  have hy' : evaluated.graph.value? n = some y := Action.value?_of_evalValue hn hout
  have hregular' : ∀ m, evaluated.graph.Reaches n m → evaluated.graph.Regular m :=
    fun m hm => hregular m ((reaches_congr he.skeleton).1 hm)
  have hrun := Action.run_evalDeriv_node evaluated.graph (Tensor.rules RealScalars) hy'
  have hgraph : swept.graph = (sweep (Tensor.rules RealScalars) evaluated.graph n y).graph :=
    congrArg Reply.graph hrun
  have hok : swept.outcome = .ok () :=
    (congrArg Reply.outcome hrun).trans (outcome_sweep_number hg' hc' hn' hy')
  refine ⟨⟨y, hout, hynum.shape⟩, hok, fun v hk => ?_⟩
  have hv : evaluated.graph.number v = g.number v := by
    rw [Graph.number, Graph.number, he.leaves v (by rw [hk]; rfl)]
  rw [hgraph, ← hv]
  exact sweep_hasDerivAt hg' hc' hn' hy' hregular' ((kind?_congr he.skeleton v).trans hk)

theorem after_logarithm :
    Graph.empty.after .number (Tensor.rules RealScalars) [.emptyVariable "x",
      .setValue (.node 0) 2, .unary .ln (.node 0), .binary .mul (.node 0) (.node 1)] =
    ⟨#[⟨.var, some (.single (d := .float64) (2 : ℝ)), none, [], [1, 2]⟩,
      ⟨.unary .ln, none, none, [0], [2]⟩, ⟨.binary .mul, none, none, [0, 1], []⟩],
      [("x", 0)], #[(0, 1), (0, 2), (1, 2)]⟩ := by
  have hg : Graph.empty.after .number (Tensor.rules RealScalars) [.emptyVariable "x"] =
      ⟨#[⟨.var, none, none, [], []⟩], [("x", 0)], #[]⟩ := rfl
  have hwf := wellFormed_after .number (Tensor.rules RealScalars) [.emptyVariable "x"]
  rw [hg] at hwf
  have hset : ((Action.setValue Conversion.number.any (.node 0) 2).run
      ⟨#[⟨.var, none, none, [], []⟩], [("x", 0)], #[]⟩).graph =
      ⟨#[⟨.var, some (.single (d := .float64) (2 : ℝ)), none, [], []⟩], [("x", 0)], #[]⟩ := by
    have htwo : Conversion.number.any 2 = .ok (.single (d := .float64) (2 : ℝ)) := rfl
    obtain ⟨events, hrun⟩ := hwf.run_setValue (n := 0) rfl htwo
    rw [hrun, invalidate_of_no_consumers rfl]
    rfl
  rw [Graph.after_cons, Graph.after_nil] at hg
  rw [Graph.after_cons, hg, Graph.after_cons, Call.perform, Action.graph_then_pure, hset]
  rfl

/-- A number times its logarithm, which is reached along two paths, differentiated at two. -/
theorem evalDeriv_of_logarithm :
    let g := Graph.empty.after .number (Tensor.rules RealScalars) [.emptyVariable "x",
      .setValue (.node 0) 2, .unary .ln (.node 0), .binary .mul (.node 0) (.node 1)]
    let evaluated := (Action.evalValue (Tensor.rules RealScalars) (.node 2)).run g
    let swept := (Action.evalDeriv (Tensor.rules RealScalars) (.node 2)).run evaluated.graph
    ∃ f : ℝ → ℝ, (∀ x, ∃ y, swept.graph.valueAt 2 0 x = .ok y ∧ y.IsNumber (f x)) ∧
      HasDerivAt f (swept.graph.gradient 0) 2 := by
  intro g evaluated swept
  have hg := after_logarithm
  have hn : 2 < g.size := by
    simp only [g, hg]
    exact Nat.lt_add_one 2
  have hleaves : g.Numeric := by
    simp only [g, hg]
    intro m hk
    rcases m with _ | _ | _ | m
    · exact ⟨_, rfl, rfl⟩
    all_goals simp [kind?] at hk
  have he : g.Enriches evaluated.graph := enriches_evalValue (wellFormed_after _ _ _) hn
  have htwo : evaluated.graph.value? 0 = some (.single (d := .float64) (2 : ℝ)) := by
    refine he.keeps 0 _ ?_
    simp only [g, hg]
    rfl
  have hregular : ∀ m, g.Reaches 2 m → evaluated.graph.Regular m := by
    refine fun m _ => ⟨fun op a x ha hx => ?_, fun op l r x y ha hx hy => ?_⟩
    · rw [application_congr he.skeleton] at ha
      simp only [g, hg] at ha
      rcases m with _ | _ | _ | m
      · cases ha
      · cases ha
        rw [htwo] at hx
        cases hx
        exact two_pos
      · cases ha
      · simp [application] at ha
    · rw [application_congr he.skeleton] at ha
      simp only [g, hg] at ha
      rcases m with _ | _ | _ | m
      · cases ha
      · cases ha
      · cases ha
        trivial
      · simp [application] at ha
  obtain ⟨-, -, h⟩ := evalDeriv_hasDerivAt .number [.emptyVariable "x", .setValue (.node 0) 2,
    .unary .ln (.node 0), .binary .mul (.node 0) (.node 1)] 2 hn hleaves hregular
  have hk : g.kind? 0 = some .var := by
    simp only [g, hg]
    rfl
  have hv : g.number 0 = 2 := by
    simp only [g, hg]
    rfl
  obtain ⟨-, f, hf, hd⟩ := h 0 hk
  rw [hv] at hd
  exact ⟨f, hf, hd⟩

end DiffGraph
