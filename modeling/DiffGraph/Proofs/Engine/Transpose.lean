import DiffGraph.Proofs.Engine.History
import DiffGraph.Proofs.Engine.PassShapes
import DiffGraph.Proofs.Operator.Tangents
import Mathlib.Algebra.Field.Rat

/-!
# A reverse pass transposes the propagation of tangents

Tangents are propagated forward from the leaves of an expression tree, each in the shape of its
value and broadcast as the values are. Along every operator the inner product of a gradient with
the tangent of its node is handed down to the operands, so the seed of ones collects at the leaves:
the sum of the elements of the output's tangent is the sum of the inner products of the gradients
that the pass leaves at the leaves with their tangents. A leaf that is shared has a single tangent,
and its gradient is the sum of what arrives there.
-/

namespace DiffGraph

variable {K D : Type} [AlgebraicField K] [ElementaryFunctions K]

/-- The tangent of a tree, from the values and the tangents at its leaves. -/
def Unfolding.tangent (leaf : Nat → Except (Fault TensorError) (Tensor (Scalars K)))
    (τ : Nat → Tensor (Scalars K)) : Unfolding → Except (Fault TensorError) (Tensor (Scalars K))
  | .leaf n => .ok (τ n)
  | .unary _ op t => do
    let a ← t.value (Tensor.rules (Scalars K)) leaf
    let da ← t.tangent leaf τ
    (op.push a da).mapError .rule
  | .binary _ op l r => do
    let x ← l.value (Tensor.rules (Scalars K)) leaf
    let y ← r.value (Tensor.rules (Scalars K)) leaf
    let dx ← l.tangent leaf τ
    let dy ← r.tangent leaf τ
    (op.push x y dx dy).mapError .rule

namespace Graph

variable {V M : Type} [AddCommMonoid M]

/-- What arrives at some nodes, summed node by node or visit by visit. -/
theorem sum_arrivals (S : Finset Nat) (φ : Nat → V → M) {vs : List (Visit V)}
    (hs : ∀ w ∈ vs, w.node ∉ S → φ w.node w.gradient = 0) :
    ∑ m ∈ S, ((arrivals vs m).map (φ m)).sum = (vs.map fun w => φ w.node w.gradient).sum := by
  induction vs with
  | nil => exact Finset.sum_const_zero
  | cons v vs ih =>
      have hcons : ∀ m, ((arrivals (v :: vs) m).map (φ m)).sum =
          (if v.node = m then φ m v.gradient else 0) + ((arrivals vs m).map (φ m)).sum := by
        intro m
        by_cases hm : v.node = m
        · subst hm
          rw [arrivals_cons_self, List.map_cons, List.sum_cons, if_pos rfl]
        · rw [arrivals_cons_ne hm, if_neg hm, zero_add]
      simp only [hcons]
      rw [Finset.sum_add_distrib, ih fun w hw => hs w (List.mem_cons_of_mem v hw),
        Finset.sum_ite_eq, List.map_cons, List.sum_cons]
      congr 1
      split
      · rfl
      · rename_i hv
        exact (hs v List.mem_cons_self hv).symm

variable {g h : Graph (Tensor (Scalars K))} {τ : Nat → Tensor (Scalars K)} {n m : Nat}
  {d : Tensor (Scalars K)} {t : Unfolding} {vs : List (Visit (Tensor (Scalars K)))}

/-- Every leaf that holds a value has a tangent of its shape. -/
def Tangential (g : Graph (Tensor (Scalars K))) (τ : Nat → Tensor (Scalars K)) : Prop :=
  ∀ m v, g.kind? m = some .const ∨ g.kind? m = some .var → g.value? m = some v →
    (τ m).shape = v.shape

/-- What a gradient that arrives at a node contributes: at a leaf its inner product with the
tangent, elsewhere nothing. -/
def share (g : Graph (Tensor (Scalars K))) (τ : Nat → Tensor (Scalars K)) (m : Nat)
    (d : Tensor (Scalars K)) : K :=
  if (g.kind? m).any Kind.isOperator then 0 else d.inner (τ m)

omit [ElementaryFunctions K] in
theorem share_operator (hm : (g.kind? m).any Kind.isOperator) : g.share τ m d = 0 := if_pos hm

omit [ElementaryFunctions K] in
theorem share_leaf (hm : g.kind? m = some .const ∨ g.kind? m = some .var) :
    g.share τ m d = d.inner (τ m) := by
  rcases hm with hm | hm <;> simp [share, hm, Kind.isOperator]

/-- The inner product of a gradient with the tangent of its node is what its visits contribute. -/
theorem Visits.inner_tangent (hv : Visits (Tensor.rules (Scalars K)) g n d vs)
    (hc : Coherent (Tensor.rules (Scalars K)) g) (ht : g.Unfolds n t) (hs : g.Shaped n d)
    (hτ : g.Tangential τ) :
    ∃ u, t.tangent g.operandValue τ = .ok u ∧ g.Shaped n u ∧
      d.inner u = (vs.map fun w => g.share τ w.node w.gradient).sum := by
  induction hv generalizing t with
  | @leaf n d ha =>
      obtain ⟨v, hv, -⟩ := hs
      have hk := application_eq_leaf_iff.1 ha
      rw [ht.eq_leaf ha]
      refine ⟨τ n, rfl, ⟨v, hv, hτ n v hk hv⟩, ?_⟩
      rw [List.map_cons, List.map_nil, List.sum_cons, List.sum_nil, add_zero, share_leaf hk]
  | @unary n a op d x da vs ha hx hp hvs ih =>
      obtain ⟨s, rfl, hsub⟩ := ht.eq_unary ha
      have hparts := hs.of_contributions hc
        (contributions_eq_ok_iff.2 (.inr (.inl ⟨op, a, x, da, ha, hx, hp, rfl⟩)))
      obtain ⟨ta, hta, htas, hsum⟩ := ih hsub (hparts (a, da) (by simp))
      obtain ⟨v, hv, hshape⟩ := hs
      obtain ⟨x', hx', hval⟩ := hc.unary hv ha
      obtain rfl := Option.some.inj (hx'.symm.trans hx)
      obtain ⟨u, hu, hus, hinner⟩ := op.pull_transposes_push hval hshape (htas.shape hx) hp
      refine ⟨u, ?_, ⟨v, hv, hus⟩, ?_⟩
      · exact Except.bind_eq_ok_iff.2 ⟨_, hc.tree_value hsub hx, Except.bind_eq_ok_iff.2
          ⟨ta, hta, Except.mapError_eq_ok_iff.2 hu⟩⟩
      · -- the operator keeps nothing for itself: all of it goes to the operand
        rw [List.map_cons, List.sum_cons, share_operator (isOperator_of_application ha (by simp)),
          zero_add, List.map_map, ← hinner, hsum]
        rfl
  | @binary n l r op d x y dl dr vs ws ha hx hy hp hvs hws ihl ihr =>
      obtain ⟨s, s', rfl, hsl, hsr⟩ := ht.eq_binary ha
      have hparts := hs.of_contributions hc
        (contributions_eq_ok_iff.2 (.inr (.inr ⟨op, l, r, x, y, dl, dr, ha, hx, hy, hp, rfl⟩)))
      obtain ⟨tl, htl, htls, hsuml⟩ := ihl hsl (hparts (l, dl) (by simp))
      obtain ⟨tr, htr, htrs, hsumr⟩ := ihr hsr (hparts (r, dr) (by simp))
      obtain ⟨v, hv, hshape⟩ := hs
      obtain ⟨x', y', hx', hy', hval⟩ := hc.binary hv ha
      obtain rfl := Option.some.inj (hx'.symm.trans hx)
      obtain rfl := Option.some.inj (hy'.symm.trans hy)
      obtain ⟨u, hu, hus, hinner⟩ :=
        op.pull_transposes_push hval hshape (htls.shape hx) (htrs.shape hy) hp
      refine ⟨u, ?_, ⟨v, hv, hus⟩, ?_⟩
      · exact Except.bind_eq_ok_iff.2 ⟨_, hc.tree_value hsl hx, Except.bind_eq_ok_iff.2
          ⟨_, hc.tree_value hsr hy, Except.bind_eq_ok_iff.2 ⟨tl, htl, Except.bind_eq_ok_iff.2
            ⟨tr, htr, Except.mapError_eq_ok_iff.2 hu⟩⟩⟩⟩
      · rw [List.map_cons, List.sum_cons, share_operator (isOperator_of_application ha (by simp)),
          zero_add, List.map_append, List.sum_append, List.map_map, List.map_map, ← hinner, hsuml,
          hsumr]
        rfl

/-- The inner product of the gradient that visits leave at a leaf. -/
theorem inner_accumulate (ha : g.withoutDerivs.accumulate (Tensor.rules (Scalars K)) vs = .ok h)
    (hsize : ∀ w ∈ vs, w.node < g.withoutDerivs.size)
    (hs : ∀ w ∈ vs, g.Shaped w.node w.gradient) (hτ : g.Tangential τ)
    (hm : g.kind? m = some .const ∨ g.kind? m = some .var) :
    (h.deriv? m).elim 0 (fun d => d.inner (τ m)) =
      ((arrivals vs m).map fun d => d.inner (τ m)).sum := by
  have harrivals : ∀ d ∈ arrivals vs m, d.shape = (τ m).shape := by
    intro d hd
    obtain ⟨w, hw, rfl⟩ := List.mem_map.1 hd
    obtain ⟨hw, hnode⟩ := List.mem_filter.1 hw
    obtain ⟨v, hv, hshape⟩ := hs w hw
    rw [of_decide_eq_true hnode] at hv
    rw [hshape, hτ m v hm hv]
  rcases accumulate_none ha hsize (deriv?_withoutDerivs g m) with ⟨hnil, hd⟩ |
    ⟨c, cs, total, harr, hfold, hd⟩
  · rw [hnil, hd]
    rfl
  · rw [harr] at harrivals ⊢
    rw [hd]
    exact Tensor.inner_foldlM_add (harrivals c List.mem_cons_self)
      (fun d hd => harrivals d (List.mem_cons_of_mem c hd)) hfold

/-- The seed of ones collects at the leaves of the tree. -/
theorem sweep_inner_tangent (hg : g.WellFormed) (hc : Coherent (Tensor.rules (Scalars K)) g)
    {v : Tensor (Scalars K)} (hv : g.value? n = some v) (ht : g.Unfolds n t)
    (hτ : g.Tangential τ) (hok : (sweep (Tensor.rules (Scalars K)) g n v).outcome = .ok ()) :
    ∃ u, t.tangent g.operandValue τ = .ok u ∧ u.shape = v.shape ∧
      u.total = ∑ m ∈ t.leaves.toFinset,
        ((sweep (Tensor.rules (Scalars K)) g n v).graph.deriv? m).elim 0
          fun d => d.inner (τ m) := by
  obtain ⟨vs, hvs, ha, -⟩ := visits_of_sweep hok
  have hsize := hvs.lt_size hg (lt_size_of_value? hv)
  have hs : g.Shaped n v.onesLike := ⟨v, hv, rfl⟩
  have hshaped := hvs.shaped hc hs
  obtain ⟨u, hu, hus, hsum⟩ := hvs.inner_tangent hc ht hs hτ
  refine ⟨u, hu, hus.shape hv, ?_⟩
  rw [← Tensor.inner_onesLike (hus.shape hv).symm]
  refine hsum.trans ?_
  rw [← sum_arrivals t.leaves.toFinset (g.share τ)]
  · refine Finset.sum_congr rfl fun m hm => ?_
    have hk := ht.kind?_of_mem_leaves (List.mem_toFinset.1 hm)
    rw [inner_accumulate ha (by simpa using hsize) hshaped hτ hk]
    exact congrArg List.sum (List.map_congr_left fun d _ => share_leaf hk)
  · intro w hw hno
    have hreach : g.Reaches n w.node := reaches_iff_exists_path.2 ⟨w.path, (hvs.at_end w hw).1⟩
    obtain ⟨app, happ⟩ := hg.exists_application (E := TensorError) (hsize w hw)
    refine share_operator (isOperator_of_application happ ?_)
    rintro rfl
    have hk := application_eq_leaf_iff.1 happ
    exact hno (List.mem_toFinset.2 ((ht.mem_leaves_iff hg).2 ⟨hk, hreach⟩))

end Graph

open DiffGraph.Graph

/-- Over a field, with any tensors at the leaves and with broadcasting: if a reverse pass from an
evaluated output succeeds, then for all tangents of the leaves, each in the shape of its leaf, the
output has a tangent, and the sum of its elements is the sum, over the leaves that the pass has
reached, of the inner products of their gradients with their tangents. -/
theorem evalDeriv_transposes_tangents
    (conversion : Conversion D (Tensor (Scalars K)) TensorError) (calls : List (Call D)) (n : Nat)
    (hok : ((Action.evalDeriv (Tensor.rules (Scalars K)) (.node n)).run
      (Graph.empty.after conversion (Tensor.rules (Scalars K)) calls)).outcome = .ok ()) :
    let g := Graph.empty.after conversion (Tensor.rules (Scalars K)) calls
    let g' := ((Action.evalDeriv (Tensor.rules (Scalars K)) (.node n)).run g).graph
    ∃ t v, (∀ s, g.Unfolds n s ↔ s = t) ∧ g.value? n = some v ∧
      (∀ m, m ∈ t.leaves ↔
        (g.kind? m = some .const ∨ g.kind? m = some .var) ∧ (g'.deriv? m).isSome) ∧
      (∀ m d, g'.deriv? m = some d → g.Shaped m d) ∧
      ∀ τ : Nat → Tensor (Scalars K), g.Tangential τ → ∃ u,
        t.tangent g.operandValue τ = .ok u ∧ u.shape = v.shape ∧
          u.total = ∑ m ∈ t.leaves.toFinset, (g'.deriv? m).elim 0 fun d => d.inner (τ m) := by
  intro g g'
  obtain ⟨hg, hc⟩ := coherent_after conversion (Tensor.rules (Scalars K)) calls
  obtain ⟨v, hv⟩ := Action.exists_value?_of_evalDeriv hok
  have hn := lt_size_of_value? hv
  have hrun := Action.run_evalDeriv_node g (Tensor.rules (Scalars K)) hv
  have hg' : g' = (sweep (Tensor.rules (Scalars K)) g n v).graph := congrArg Reply.graph hrun
  have hsweep : (sweep (Tensor.rules (Scalars K)) g n v).outcome = .ok () :=
    (congrArg Reply.outcome hrun).symm.trans hok
  obtain ⟨t, ht⟩ := hg.exists_unfolds hn
  rw [hg']
  refine ⟨t, v, fun s => ⟨fun hs => hs.unique ht, ?_⟩, hv, fun m => ?_,
    (sweep_shaped hg hc hv).1, fun τ hτ => ?_⟩
  · rintro rfl
    exact ht
  · rw [ht.mem_leaves_iff hg, isSome_deriv?_sweep_iff hg hn hsweep]
  · exact sweep_inner_tangent hg hc hv ht hτ hsweep

/-! ## An example -/

/-- Tensors that are handed in as they are. -/
def Conversion.tensors (K : Type) :
    Conversion (Tensor (Scalars K)) (Tensor (Scalars K)) TensorError where
  any := .ok
  scalar t := if t.rank = 0 then .ok t else .error (.rankMismatch t.rank 0)
  vector t := if t.rank = 1 then .ok t else .error (.rankMismatch t.rank 1)
  data := id

instance : ElementaryFunctions ℚ := ⟨fun _ x => x⟩

/-- A column times a row, plus the column. -/
def columnTimesRow (column row : Tensor (Scalars ℚ)) : List (Call (Tensor (Scalars ℚ))) :=
  [.constant .any column, .constant .any row, .binary .mul (.node 0) (.node 1),
    .binary .add (.node 2) (.node 0), .evalValue (.node 3)]

/-- The column is stretched twice, once with the row and once with their product. -/
theorem evalDeriv_of_stretched_column :
    let column : ℚ → ℚ → Tensor (Scalars ℚ) := fun x y => ⟨.float64, ⟨[2, 1], #[x, y], rfl⟩⟩
    let row : ℚ → ℚ → ℚ → Tensor (Scalars ℚ) := fun x y z => ⟨.float64, ⟨[3], #[x, y, z], rfl⟩⟩
    let τ : Nat → Tensor (Scalars ℚ) := fun m => if m = 0 then column 1 0 else row 0 1 0
    let g := Graph.empty.after (.tensors ℚ) (Tensor.rules (Scalars ℚ))
      (columnTimesRow (column 1 2) (row 3 4 5))
    ∃ t u, g.Unfolds 3 t ∧ t.tangent g.operandValue τ = .ok u ∧ u.shape = [2, 3] ∧
      u.total = 18 := by
  intro column row τ g
  obtain ⟨t, v, ht, hv, -, -, h⟩ := evalDeriv_transposes_tangents (.tensors ℚ)
    (columnTimesRow (column 1 2) (row 3 4 5)) 3 (by decide +kernel)
  have htree : g.Unfolds 3 (.binary 3 .add (.binary 2 .mul (.leaf 0) (.leaf 1)) (.leaf 0)) :=
    .binary (by decide +kernel) (by decide +kernel) (.binary (by decide +kernel)
      (by decide +kernel) (.leaf (.inl (by decide +kernel))) (.leaf (.inl (by decide +kernel))))
      (.leaf (.inl (by decide +kernel)))
  obtain rfl := (ht _).1 htree
  have hshape : ∀ m s x, (g.value? m).map Tensor.shape = some s → g.value? m = some x →
      s = x.shape := by
    intro m s x hs hx
    rw [hx] at hs
    exact (Option.some.inj hs).symm
  have hτ : g.Tangential τ := by
    intro m x hk hx
    have hsize : g.size = 4 := by decide +kernel
    have hm := lt_size_of_value? hx
    rw [hsize] at hm
    rcases m with _ | _ | _ | _ | m
    · exact hshape 0 [2, 1] x (by decide +kernel) hx
    · exact hshape 1 [3] x (by decide +kernel) hx
    · have hkind : g.kind? 2 = some (.binary .mul) := by decide +kernel
      simp [hkind] at hk
    · have hkind : g.kind? 3 = some (.binary .add) := by decide +kernel
      simp [hkind] at hk
    · omega
  obtain ⟨u, hu, hus, htotal⟩ := h τ hτ
  refine ⟨_, u, htree, hu, hus.trans ?_, htotal.trans (by decide +kernel)⟩
  exact (hshape 3 [2, 3] v (by decide +kernel) hv).symm

end DiffGraph
