import DiffGraph.Proofs.Gradient.Building

/-!
# Inputs

The inputs of an expression are entered into a graph as leaves of their own, each under its name,
with the converted data as its value. It does not matter whether they are variables or constants,
nor in which order they came: what can be differentiated over one such graph can be differentiated
over any other, with the same gradient at the leaf of each input.
-/

namespace DiffGraph

open DiffGraph.Graph

/-- An expression over some names that stand for constants. -/
def Expression.withConstants {D : Type} (e : Expression D) : List (String × D) → Expression D
  | [] => e
  | (s, d) :: rest => .share s (.const d) (e.withConstants rest)

namespace Gradient

variable {D : Type} {A : DType → Type} [Arithmetic A]
  {conversion : Conversion D (Tensor A) TensorError} {inputs others : List (String × D)}
  {names : Names} {e : Expression D} {ρ σ : Handles} {g h final : Graph (Tensor A)} {n : Nat}
  {s : String} {d : D}

/-- The inputs are leaves of a graph, which the handles find under their names. -/
structure Entered (conversion : Conversion D (Tensor A) TensorError) (inputs : List (String × D))
    (ρ : Handles) (g : Graph (Tensor A)) : Prop where
  wellFormed : g.WellFormed
  coherent : Coherent (Tensor.rules A) g
  leaf : ∀ i ∈ inputs, ∃ a v, ρ.lookup i.1 = some (.node a) ∧ conversion.any i.2 = .ok v ∧
    g.IsLeaf a v
  distinct : ∀ i ∈ inputs, ∀ j ∈ inputs, ∀ a, ρ.lookup i.1 = some (.node a) →
    ρ.lookup j.1 = some (.node a) → i.1 = j.1

namespace Entered

theorem nil (hg : g.WellFormed) (hc : Coherent (Tensor.rules A) g) (ρ : Handles) :
    Entered conversion [] ρ g :=
  ⟨hg, hc, fun _ hi => (List.not_mem_nil hi).elim, fun _ hi => (List.not_mem_nil hi).elim⟩

theorem of_subset (hρ : Entered conversion inputs ρ g) (h : others ⊆ inputs) :
    Entered conversion others ρ g :=
  ⟨hρ.wellFormed, hρ.coherent, fun i hi => hρ.leaf i (h hi),
    fun i hi j hj => hρ.distinct i (h hi) j (h hj)⟩

theorem continues (hρ : Entered conversion inputs ρ g) (hg : g.Continues h) (hh : h.WellFormed)
    (hc : Coherent (Tensor.rules A) h) : Entered conversion inputs ρ h where
  wellFormed := hh
  coherent := hc
  leaf i hi := by
    obtain ⟨a, v, ha, hv, hleaf⟩ := hρ.leaf i hi
    exact ⟨a, v, ha, hv, hg.isLeaf hleaf⟩
  distinct := hρ.distinct

/-- A further leaf is entered under a new name. -/
theorem cons (hρ : Entered conversion inputs ρ g) {v : Tensor A} (hd : conversion.any d = .ok v)
    (hn : g.IsLeaf n v) (hs : s ∉ inputs.map Prod.fst)
    (hnew : ∀ i ∈ inputs, ρ.lookup i.1 ≠ some (.node n)) :
    Entered conversion ((s, d) :: inputs) ((s, .node n) :: ρ) g := by
  have hself : List.lookup s ((s, .node n) :: ρ) = some (.node n) := List.lookup_cons_self
  have hold : ∀ i ∈ inputs, List.lookup i.1 ((s, .node n) :: ρ) = ρ.lookup i.1 := fun i hi =>
    lookup_cons_ne (fun his => hs (List.mem_map.2 ⟨i, hi, his⟩)) _ _
  refine ⟨hρ.wellFormed, hρ.coherent, ?_, ?_⟩
  · refine List.forall_mem_cons.2 ⟨⟨n, v, hself, hd, hn⟩, fun i hi => ?_⟩
    rw [hold i hi]
    exact hρ.leaf i hi
  · intro i hi j hj a ha hb
    rcases List.mem_cons.1 hi with rfl | hi <;> rcases List.mem_cons.1 hj with rfl | hj
    · rfl
    · rw [hself] at ha
      rw [hold j hj, ← ha] at hb
      exact (hnew j hj hb).elim
    · rw [hself] at hb
      rw [hold i hi, ← hb] at ha
      exact (hnew i hi ha).elim
    · rw [hold i hi] at ha
      rw [hold j hj] at hb
      exact hρ.distinct i hi j hj a ha hb

theorem cover (hρ : Entered conversion inputs ρ g) : ρ.Cover g (inputs.map Prod.fst) := by
  intro s hs
  obtain ⟨i, hi, rfl⟩ := List.mem_map.1 hs
  obtain ⟨a, v, ha, -, hleaf⟩ := hρ.leaf i hi
  exact ⟨a, ha, hleaf.lt_size⟩

theorem converts (hρ : Entered conversion inputs ρ g) :
    ∀ i ∈ inputs, ∃ v, conversion.any i.2 = .ok v := by
  intro i hi
  obtain ⟨_, v, -, hv, -⟩ := hρ.leaf i hi
  exact ⟨v, hv⟩

theorem leaf_at (hρ : Entered conversion inputs ρ g) {i : String × D} (hi : i ∈ inputs)
    (hn : ρ.lookup i.1 = some (.node n)) : ∃ v, conversion.any i.2 = .ok v ∧ g.IsLeaf n v := by
  obtain ⟨a, v, ha, hv, hleaf⟩ := hρ.leaf i hi
  rw [ha, Option.some.injEq, Ref.node_inj] at hn
  exact ⟨v, hv, hn ▸ hleaf⟩

/-- The leaves of an input in two graphs are twins, if the marks are at the same input. -/
theorem twins (hρ : Entered conversion inputs ρ g) (hσ : Entered conversion inputs σ h)
    {p q : Option Nat} {names : List String} (hnames : names ⊆ inputs.map Prod.fst)
    (hmark : ∀ i ∈ inputs, i.1 ∈ names → ∀ a b, ρ.lookup i.1 = some (.node a) →
      σ.lookup i.1 = some (.node b) → (some a = p ↔ some b = q)) :
    ρ.Twins σ g h p q names := by
  intro s hs a b ha hb
  obtain ⟨i, hi, rfl⟩ := List.mem_map.1 (hnames hs)
  obtain ⟨v, hv, hleaf⟩ := hρ.leaf_at hi ha
  obtain ⟨w, hw, hleaf'⟩ := hσ.leaf_at hi hb
  obtain rfl : v = w := Except.ok.inj (hv.symm.trans hw)
  exact .leaf hleaf hleaf' (hmark i hi hs a b ha hb)

/-- The leaf of one input is marked in both graphs. -/
theorem twins_at (hρ : Entered conversion inputs ρ g) (hσ : Entered conversion inputs σ h)
    {names : List String} (hnames : names ⊆ inputs.map Prod.fst) {i : String × D} (hi : i ∈ inputs)
    {a b : Nat} (ha : ρ.lookup i.1 = some (.node a)) (hb : σ.lookup i.1 = some (.node b)) :
    ρ.Twins σ g h (some a) (some b) names := by
  refine hρ.twins hσ hnames fun j hj _ c c' hc hc' => ?_
  rw [Option.some.injEq, Option.some.injEq]
  constructor
  · rintro rfl
    rw [hρ.distinct j hj i hi c hc ha, hb] at hc'
    simpa using hc'.symm
  · rintro rfl
    rw [hσ.distinct j hj i hi c' hc' hb, ha] at hc
    simpa using hc.symm

end Entered

/-! ## Entering inputs as variables and as constants -/

/-- A variable with a value is a leaf behind the other nodes. -/
theorem leaf_of_gives_variableOf (hc : conversion.Settled) (hg : g.WellFormed)
    (hcg : Coherent (Tensor.rules A) g)
    (hx : (Action.variableOf conversion conversion.any s d).Gives g n h) :
    n = g.size ∧ g.Continues h ∧ h.WellFormed ∧ Coherent (Tensor.rules A) h ∧
      ∃ v, conversion.any d = .ok v ∧ h.IsLeaf n v := by
  have hchanges : (Action.variableOf conversion conversion.any s d).Changes (Tensor.rules A) :=
    changes_variableOf conversion _ _ s d
  obtain ⟨hh, hch⟩ := hchanges.coherent hg hcg hx
  obtain ⟨v, hv, -, rfl, rfl⟩ := (Action.gives_variableOf_iff hc).1 hx
  have happend : g.Continues (g.append (.fresh .var (some v))) := .append_fresh g rfl _
  have hbind := Continues.bindName (g.append (.fresh .var (some v))) s g.size
  exact ⟨rfl, happend.trans hbind, hh, hch, v, hv, hbind.isLeaf (isLeaf_append g (.inr rfl) v)⟩

/-- The inputs are entered as variables under their names, in their order. -/
theorem entered_of_gives_appendInputs (hc : conversion.Settled) (hg : g.WellFormed)
    (hcg : Coherent (Tensor.rules A) g) (hnames : (inputs.map Prod.fst).Nodup)
    (hx : (appendInputs conversion inputs).Gives g names h) :
    names.map Prod.fst = inputs.map Prod.fst ∧ g.Continues h ∧ (∀ e ∈ names, g.size ≤ e.2) ∧
      Entered conversion inputs (handles names) h := by
  induction inputs generalizing g names with
  | nil =>
      rw [appendInputs, Action.gives_pure_iff] at hx
      obtain ⟨rfl, rfl⟩ := hx
      exact ⟨rfl, .refl g, nofun, .nil hg hcg _⟩
  | cons i inputs ih =>
      obtain ⟨s, d⟩ := i
      rw [appendInputs, Action.gives_bind_iff] at hx
      obtain ⟨n, k, hvar, hx⟩ := hx
      obtain ⟨names, k', hrest, hx⟩ := Action.gives_bind_iff.1 hx
      obtain ⟨rfl, rfl⟩ := Action.gives_pure_iff.1 hx
      obtain ⟨rfl, hk, hwell, hcoherent, v, hv, hleaf⟩ := leaf_of_gives_variableOf hc hg hcg hvar
      obtain ⟨hnew, hnames⟩ := List.nodup_cons.1 hnames
      obtain ⟨hmap, hh, hsize, hentered⟩ := ih hwell hcoherent hnames hrest
      refine ⟨congrArg (s :: ·) hmap, hk.trans hh, ?_, ?_⟩
      · refine List.forall_mem_cons.2 ⟨Nat.le_refl _, fun e he => ?_⟩
        exact Nat.le_trans hk.size_le (hsize e he)
      · refine hentered.cons hv (hh.isLeaf hleaf) hnew fun i _ hi => ?_
        -- the later leaves stand behind this one
        rw [handles, lookup_map_snd, Option.map_eq_some_iff] at hi
        obtain ⟨a, ha, hnode⟩ := hi
        have hle := hsize _ (mem_of_lookup ha)
        rw [Ref.node_inj.1 hnode] at hle
        exact Nat.lt_irrefl _ (Nat.lt_of_lt_of_le hleaf.lt_size hle)

omit [Arithmetic A] in
theorem exists_gives_appendInputs (hc : conversion.Settled)
    (hconvert : ∀ i ∈ inputs, ∃ v, conversion.any i.2 = .ok v)
    (hnames : (inputs.map Prod.fst).Nodup) (hnew : ∀ i ∈ inputs, g.names.get? i.1 = none) :
    ∃ names h, (appendInputs conversion inputs).Gives g names h := by
  induction inputs generalizing g with
  | nil => exact ⟨[], g, Action.gives_pure_iff.2 ⟨rfl, rfl⟩⟩
  | cons i inputs ih =>
      obtain ⟨s, d⟩ := i
      obtain ⟨⟨v, hv⟩, hconvert⟩ := List.forall_mem_cons.1 hconvert
      obtain ⟨hs, hnames⟩ := List.nodup_cons.1 hnames
      obtain ⟨hfree, hnew⟩ := List.forall_mem_cons.1 hnew
      have hvar := (Action.gives_variableOf_iff hc).2 ⟨v, hv, hfree, rfl, rfl⟩
      have hnew' : ∀ i ∈ inputs, (g.names.bind s g.size).get? i.1 = none := by
        intro i hi
        have hne : i.1 ≠ s := fun his => hs (List.mem_map.2 ⟨i, hi, his⟩)
        rw [Names.bind_of_get?_eq_none hfree, Names.get?, List.lookup_append, lookup_cons_ne hne]
        exact Option.or_eq_none_iff.2 ⟨hnew i hi, rfl⟩
      obtain ⟨names, h, hrest⟩ :=
        ih (g := (g.append (.fresh .var (some v))).bindName s g.size) hconvert hnames hnew'
      refine ⟨(s, g.size) :: names, h, ?_⟩
      rw [appendInputs, Action.gives_bind_iff]
      refine ⟨_, _, hvar, ?_⟩
      rw [Action.gives_bind_iff]
      exact ⟨_, _, hrest, Action.gives_pure_iff.2 ⟨rfl, rfl⟩⟩

/-- Names in front of an expression are entered as constants before it is built. -/
theorem Entered.withConstants (hσ : Entered conversion inputs σ h) (others : List (String × D))
    (hconvert : ∀ i ∈ others, ∃ v, conversion.any i.2 = .ok v)
    (hnames : (others.map Prod.fst).Nodup) (hnew : ∀ i ∈ others, i.1 ∉ inputs.map Prod.fst)
    (e : Expression D) :
    ∃ τ h', Entered conversion (others ++ inputs) τ h' ∧
      (∀ s ∉ others.map Prod.fst, τ.lookup s = σ.lookup s) ∧
      ∀ r k, (e.build conversion τ).Gives h' r k ↔
        ((e.withConstants others).build conversion σ).Gives h r k := by
  induction others generalizing inputs σ h with
  | nil => exact ⟨σ, h, hσ, fun _ _ => rfl, fun _ _ => Iff.rfl⟩
  | cons i others ih =>
      obtain ⟨s, d⟩ := i
      obtain ⟨⟨v, hv⟩, hconvert⟩ := List.forall_mem_cons.1 hconvert
      obtain ⟨hs, hnames⟩ := List.nodup_cons.1 hnames
      obtain ⟨hfree, hnew⟩ := List.forall_mem_cons.1 hnew
      have hlast : Entered conversion ((s, d) :: inputs) ((s, .node h.size) :: σ)
          (h.append (.fresh .const (some v))) := by
        refine (hσ.continues (.append_fresh h rfl _) ?_ ?_).cons hv (isLeaf_append h (.inl rfl) v)
          hfree fun i hi ha => ?_
        · exact hσ.wellFormed.append_leaf rfl fun _ => rfl
        · exact hσ.coherent.append_leaf (.inl rfl)
        · obtain ⟨w, -, hleaf⟩ := hσ.leaf_at hi ha
          exact Nat.lt_irrefl _ hleaf.lt_size
      have hnew' : ∀ i ∈ others, i.1 ∉ ((s, d) :: inputs).map Prod.fst := by
        intro i hi
        rw [List.map_cons, List.mem_cons, not_or]
        exact ⟨fun his => hs (List.mem_map.2 ⟨i, hi, his⟩), hnew i hi⟩
      obtain ⟨τ, h', hτ, hkept, hbuild⟩ := ih hlast hconvert hnames hnew'
      refine ⟨τ, h', hτ.of_subset List.perm_middle.symm.subset, ?_, ?_⟩
      · intro t ht
        rw [List.map_cons, List.mem_cons, not_or] at ht
        rw [hkept t ht.2, lookup_cons_ne ht.1]
      · intro r k
        have hconst : ((Expression.const d).build conversion σ).Gives h (.node h.size)
            (h.append (.fresh .const (some v))) :=
          Expression.gives_const_iff.2 ⟨v, hv, rfl, rfl⟩
        rw [hbuild, Expression.withConstants, Expression.gives_share_iff]
        constructor
        · exact fun hr => ⟨_, _, hconst, hr⟩
        · rintro ⟨_, _, hfirst, hr⟩
          obtain ⟨rfl, rfl⟩ := hconst.unique hfirst
          exact hr

/-- One input is there, and the others are entered as constants. -/
theorem Entered.withOthers {i : String × D} (hσ : Entered conversion [i] σ h) (hi : i ∈ inputs)
    (hnames : (inputs.map Prod.fst).Nodup)
    (hconvert : ∀ j ∈ inputs, ∃ v, conversion.any j.2 = .ok v) (e : Expression D) :
    ∃ τ h', Entered conversion inputs τ h' ∧ τ.lookup i.1 = σ.lookup i.1 ∧
      ∀ r k, (e.build conversion τ).Gives h' r k ↔
        ((e.withConstants (inputs.filter fun j => j.1 ≠ i.1)).build conversion σ).Gives h r k := by
  let others := inputs.filter fun j => j.1 ≠ i.1
  have hother : ∀ j ∈ others, j ∈ inputs ∧ j.1 ≠ i.1 := fun j hj => by
    simpa [others] using hj
  obtain ⟨τ, h', hτ, hkept, hbuild⟩ := hσ.withConstants others
    (fun j hj => hconvert j (hother j hj).1) (hnames.sublist (List.filter_sublist.map _))
    (fun j hj => by simpa using (hother j hj).2) e
  refine ⟨τ, h', hτ.of_subset fun j hj => List.mem_append.2 ?_, hkept i.1 fun hmem => ?_, hbuild⟩
  · by_cases hji : j.1 = i.1
    · exact .inr (List.mem_singleton.2 (List.inj_on_of_nodup_map hnames hj hi hji))
    · exact .inl (List.mem_filter.2 ⟨hj, decide_eq_true hji⟩)
  · obtain ⟨j, hj, hji⟩ := List.mem_map.1 hmem
    exact (hother j hj).2 hji

/-! ## Differentiating over inputs -/

/-- An expression is built into a graph, and a pass is run from its node. -/
def Differentiates (conversion : Conversion D (Tensor A) TensorError) (e : Expression D)
    (ρ : Handles) (g final : Graph (Tensor A)) : Prop :=
  ∃ r built, (e.build conversion ρ).Gives g r built ∧ (runFrom r).Gives built () final

/-- The node of the expression, its twin over the other inputs, and the pass from it. -/
theorem Entered.exists_passes (hρ : Entered conversion inputs ρ g)
    (hσ : Entered conversion inputs σ h) (he : e.Plain (inputs.map Prod.fst))
    (hd : Differentiates conversion e ρ g final) :
    ∃ n m built built' v evaluated, Expression.Paired conversion e ρ σ g h n m built built' ∧
      Passes built n v evaluated final ∧
      (built.WellFormed ∧ Coherent (Tensor.rules A) built) ∧
        built'.WellFormed ∧ Coherent (Tensor.rules A) built' := by
  obtain ⟨r, built, hbuild, hrun⟩ := hd
  obtain ⟨n, m, built', rfl, hpair⟩ := Expression.exists_paired he hρ.cover hσ.cover hbuild
  obtain ⟨v, evaluated, hpass⟩ := (gives_runFrom_iff hpair.left_lt).1 hrun
  exact ⟨n, m, built, built', v, evaluated, hpair, hpass,
    (e.changes_build conversion _ ρ).coherent hρ.wellFormed hρ.coherent hbuild,
    (e.changes_build conversion _ σ).coherent hσ.wellFormed hσ.coherent hpair.gives⟩

/-- What can be differentiated can be differentiated wherever the inputs are entered, with the same
gradients. -/
theorem Entered.differentiates (hρ : Entered conversion inputs ρ g)
    (hσ : Entered conversion inputs σ h) (he : e.Plain (inputs.map Prod.fst))
    (hd : Differentiates conversion e ρ g final) :
    ∃ final', Differentiates conversion e σ h final' ∧ ∀ i ∈ inputs, ∀ a b,
      ρ.lookup i.1 = some (.node a) → σ.lookup i.1 = some (.node b) →
        final'.gradient? b = final.gradient? a := by
  obtain ⟨n, m, built, built', v, evaluated, hpair, hpass, ⟨hwell, hcoherent⟩, hwell',
    hcoherent'⟩ := hρ.exists_passes hσ he hd
  have hplain : built.Twins built' none none n m := by
    refine hpair.twins none none nofun nofun (hρ.twins hσ he.uses_subset ?_)
    exact fun _ _ _ _ _ _ _ => iff_of_false nofun nofun
  obtain ⟨evaluated', final', hpass', -⟩ :=
    hpass.twin hwell hpair.left_lt hplain hwell' hpair.right_lt hcoherent hcoherent'
  refine ⟨final', ⟨_, _, hpair.gives, (gives_runFrom_iff hpair.right_lt).2 ⟨v, _, hpass'⟩⟩, ?_⟩
  intro i hi a b ha hb
  obtain ⟨x, hx, hleaf⟩ := hρ.leaf_at hi ha
  obtain ⟨y, hy, hleaf'⟩ := hσ.leaf_at hi hb
  obtain rfl : x = y := Except.ok.inj (hx.symm.trans hy)
  have hmarked : built.Twins built' (some a) (some b) n m := by
    refine hpair.twins _ _ ?_ ?_ (hρ.twins_at hσ he.uses_subset hi ha hb)
    · exact fun c hc => Option.some.inj hc ▸ hleaf.lt_size
    · exact fun c hc => Option.some.inj hc ▸ hleaf'.lt_size
  rw [gradient?_of_value? (hpass'.value? hwell' hpair.right_lt (hpair.right.isLeaf hleaf')),
    gradient?_of_value? (hpass.value? hwell hpair.left_lt (hpair.left.isLeaf hleaf)),
    hpass.deriv?_eq hpass' hmarked hwell hwell' hcoherent hcoherent' hpair.left_lt
      hpair.right_lt (hpair.left.isLeaf hleaf) (hpair.right.isLeaf hleaf')]

/-- The gradient at an input has the shape of its value. It is zero if the expression does not
depend on the input. -/
theorem Entered.gradient? (hρ : Entered conversion inputs ρ g)
    (he : e.Plain (inputs.map Prod.fst)) (hd : Differentiates conversion e ρ g final) :
    ∀ i ∈ inputs, ∃ a v t, ρ.lookup i.1 = some (.node a) ∧ conversion.any i.2 = .ok v ∧
      final.gradient? a = some t ∧ t.shape = v.shape ∧ (i.1 ∉ e.uses → t = v.zerosLike) := by
  intro i hi
  obtain ⟨n, m, built, built', v, evaluated, hpair, hpass, ⟨hwell, hcoherent⟩, -⟩ :=
    hρ.exists_passes hρ he hd
  obtain ⟨a, x, ha, hx, hleaf⟩ := hρ.leaf i hi
  have hleaf' := hpair.left.isLeaf hleaf
  refine ⟨a, x, _, ha, hx, gradient?_of_value? (hpass.value? hwell hpair.left_lt hleaf'),
    hpass.shape hwell hpair.left_lt hcoherent hleaf', fun hunused => ?_⟩
  -- with the leaf marked on one side only, the expression is its own twin
  have htwins : built.Twins built' (some a) none n m := by
    refine hpair.twins _ _ ?_ nofun (hρ.twins hρ he.uses_subset ?_)
    · exact fun c hc => Option.some.inj hc ▸ hleaf.lt_size
    · intro j hj hused c c' hc _
      refine iff_of_false (fun hca => hunused ?_) nofun
      rw [Option.some.inj hca] at hc
      rwa [hρ.distinct i hi j hj a ha hc]
  rw [hpass.deriv?_eq_none hwell hpair.left_lt hcoherent (htwins.not_reaches rfl rfl hwell hleaf')]
  rfl

end Gradient

end DiffGraph
