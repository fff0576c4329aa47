import DiffGraph.Proofs.Gradient.Inputs

/-!
# One pass for all inputs

The gradients with respect to several inputs come from one reverse pass. Each of them is the
gradient with respect to this input alone, where the others are constants of the expression, to the
last bit and for any arithmetic. The order of the inputs is the order of the gradients and nothing
else.
-/

namespace DiffGraph

open DiffGraph.Graph

variable {D : Type}

/-- An expression as one of the input of a name alone: the other inputs are entered as constants. -/
def Expression.withOthersFixed (e : Expression D) (name : String) (inputs : List (String × D)) :
    Expression D :=
  .share name (.name Gradient.inputName)
    (e.withConstants (inputs.filter fun i => i.1 ≠ name))

namespace Gradient

variable {A : DType → Type} [Arithmetic A] {conversion : Conversion D (Tensor A) TensorError}
  {inputs : List (String × D)} {names : Names} {e : Expression D} {ρ σ : Handles}
  {g h final : Graph (Tensor A)} {n : Nat} {s : String} {d : D}

/-! ## Gradients of an expression -/

theorem collapse_put_of_not_mem (before : List (String × D)) (i : String × D)
    (hi : i.1 ∉ before.map Prod.fst) : collapse.put before i = before ++ [i] := by
  induction before with
  | nil => rfl
  | cons j before ih =>
      rw [List.map_cons, List.mem_cons, not_or] at hi
      rw [collapse.put, if_neg (Ne.symm hi.1), ih hi.2, List.cons_append]

theorem foldl_put_of_nodup (before inputs : List (String × D))
    (hnames : ((before ++ inputs).map Prod.fst).Nodup) :
    inputs.foldl collapse.put before = before ++ inputs := by
  induction inputs generalizing before with
  | nil => exact (List.append_nil before).symm
  | cons i inputs ih =>
      have hi : i.1 ∉ before.map Prod.fst := by
        rw [List.map_append, List.nodup_append] at hnames
        exact fun hi => hnames.2.2 _ hi _ List.mem_cons_self rfl
      rw [List.foldl_cons, collapse_put_of_not_mem before i hi, ih _ (by simpa using hnames),
        List.append_assoc, List.singleton_append]

/-- Inputs of different names are taken as they are. -/
theorem collapse_of_nodup (hnames : (inputs.map Prod.fst).Nodup) : collapse inputs = inputs :=
  foldl_put_of_nodup [] inputs hnames

/-- One graph, one pass, and the gradients that are read after it. -/
theorem grads_eq_ok_iff (hnames : (inputs.map Prod.fst).Nodup)
    {result : List (String × Tensor A)} :
    grads conversion e inputs = .ok result ↔ ∃ names g final,
      (appendInputs conversion inputs).Gives .empty names g ∧
        Differentiates conversion e (handles names) g final ∧
          Reads final.gradient? names result := by
  rw [grads, Action.outcome_eq_ok_iff, action, collapse_of_nodup hnames]
  simp only [Action.gives_bind_iff, gives_derivs_iff, Differentiates]
  constructor
  · rintro ⟨_, names, g, hg, r, built, hbuild, _, final, hrun, hresult, rfl⟩
    exact ⟨names, g, final, hg, ⟨r, built, hbuild, hrun⟩, hresult⟩
  · rintro ⟨names, g, final, hg, ⟨r, built, hbuild, hrun⟩, hresult⟩
    exact ⟨final, names, g, hg, r, built, hbuild, (), final, hrun, hresult, rfl⟩

theorem grad_eq_ok_iff {t : Tensor A} :
    grad conversion e d = .ok t ↔ ∃ n g final,
      (Action.variableOf conversion conversion.any inputName d).Gives .empty n g ∧
        Differentiates conversion e [(inputName, .node n)] g final ∧
          final.gradient? n = some t := by
  simp only [grad, Action.outcome_eq_ok_iff, Action.gives_bind_iff, gives_derivOrZero_iff,
    Differentiates]
  constructor
  · rintro ⟨_, n, g, hg, r, built, hbuild, _, final, hrun, ht, rfl⟩
    exact ⟨n, g, final, hg, ⟨r, built, hbuild, hrun⟩, ht⟩
  · rintro ⟨n, g, final, hg, ⟨r, built, hbuild, hrun⟩, ht⟩
    exact ⟨final, n, g, hg, r, built, hbuild, (), final, hrun, ht, rfl⟩

/-! ## The entries of an answer -/

section Entries

variable {β : Type} {read : Nat → Option β} {result : List (String × β)}

theorem Reads.map_fst (hr : Reads read names result) :
    result.map Prod.fst = names.map Prod.fst := by
  have hfst := congrArg (List.map Prod.fst) hr
  rwa [List.map_map, List.map_map] at hfst

/-- Under a name stands what is read at its node. -/
theorem Reads.lookup (hr : Reads read names result) {a : Nat}
    (ha : (handles names).lookup s = some (.node a)) {b : β} (hb : read a = some b) :
    result.lookup s = some b := by
  rw [handles, lookup_map_snd, Option.map_eq_some_iff] at ha
  obtain ⟨n, hn, hnode⟩ := ha
  have hfound := lookup_map_snd some result s
  rw [hr, lookup_map_snd, hn, Ref.node_inj.1 hnode, Option.map_some, hb] at hfound
  obtain ⟨c, hc, hcb⟩ := Option.map_eq_some_iff.1 hfound.symm
  rw [hc, Option.some.inj hcb]

theorem exists_reads (hread : ∀ e ∈ names, ∃ b, read e.2 = some b) :
    ∃ result, Reads read names result := by
  induction names with
  | nil => exact ⟨[], rfl⟩
  | cons e names ih =>
      obtain ⟨⟨b, hb⟩, hread⟩ := List.forall_mem_cons.1 hread
      obtain ⟨result, hresult⟩ := ih hread
      refine ⟨(e.1, b) :: result, ?_⟩
      rw [Reads, List.map_cons, List.map_cons, hresult, hb]

end Entries

/-- One run over all inputs: their names in order, and the gradient that is read at the leaf of
each. -/
theorem entered_of_grads (hc : conversion.Settled) (hnames : (inputs.map Prod.fst).Nodup)
    {result : List (String × Tensor A)} (hresult : grads conversion e inputs = .ok result) :
    ∃ ρ g final, Entered conversion inputs ρ g ∧ Differentiates conversion e ρ g final ∧
      result.map Prod.fst = inputs.map Prod.fst ∧
        ∀ s a t, ρ.lookup s = some (.node a) → final.gradient? a = some t →
          result.lookup s = some t := by
  obtain ⟨names, g, final, hg, hdiff, hread⟩ := (grads_eq_ok_iff hnames).1 hresult
  obtain ⟨hmap, -, -, hentered⟩ := entered_of_gives_appendInputs hc .empty .empty hnames hg
  exact ⟨handles names, g, final, hentered, hdiff, hread.map_fst.trans hmap,
    fun s a t ha ht => hread.lookup ha ht⟩

/-- The gradient at the leaf of an input is what `grad` gives where the other inputs are fixed. -/
theorem Entered.grad_withOthersFixed (hρ : Entered conversion inputs ρ g) (hc : conversion.Settled)
    (hnames : (inputs.map Prod.fst).Nodup) (he : e.Plain (inputs.map Prod.fst))
    (hd : Differentiates conversion e ρ g final) {i : String × D} (hi : i ∈ inputs) {a : Nat}
    {t : Tensor A} (ha : ρ.lookup i.1 = some (.node a)) (ht : final.gradient? a = some t) :
    grad conversion (e.withOthersFixed i.1 inputs) i.2 = .ok t := by
  obtain ⟨v, hv⟩ := hρ.converts i hi
  obtain ⟨n, start, hvar⟩ : ∃ n start,
      (Action.variableOf conversion conversion.any inputName i.2).Gives .empty n start :=
    ⟨_, _, (Action.gives_variableOf_iff hc).2 ⟨v, hv, rfl, rfl, rfl⟩⟩
  obtain ⟨-, -, hwell, hcoherent, w, hw, hleaf⟩ := leaf_of_gives_variableOf hc .empty .empty hvar
  have hone : Entered conversion [i] [(i.1, .node n), (inputName, .node n)] start :=
    (Entered.nil hwell hcoherent _).cons hw hleaf nofun nofun
  obtain ⟨τ, h, hτ, hkept, hbuild⟩ := hone.withOthers hi hnames hρ.converts e
  rw [List.lookup_cons_self] at hkept
  obtain ⟨final', ⟨r, built, hb, hrun⟩, hsame⟩ := hρ.differentiates hτ he hd
  refine grad_eq_ok_iff.2 ⟨n, start, final', hvar, ⟨r, built, ?_, hrun⟩, ?_⟩
  · refine Expression.gives_share_iff.2 ⟨.node n, start, ?_, (hbuild r built).1 hb⟩
    exact Action.gives_pure_iff.2 ⟨rfl, rfl⟩
  · rw [hsame i hi a n ha hkept, ht]

/-- Wherever the inputs are entered, their gradients can be read. -/
theorem exists_grads_of_entered (hc : conversion.Settled) (hρ : Entered conversion inputs ρ g)
    (hnames : (inputs.map Prod.fst).Nodup) (he : e.Plain (inputs.map Prod.fst))
    (hd : Differentiates conversion e ρ g final) :
    ∃ result, grads conversion e inputs = .ok result ∧
      ∀ i ∈ inputs, ∀ a t, ρ.lookup i.1 = some (.node a) → final.gradient? a = some t →
        result.lookup i.1 = some t := by
  obtain ⟨names, h, hgives⟩ : ∃ names h, (appendInputs conversion inputs).Gives .empty names h :=
    exists_gives_appendInputs hc hρ.converts hnames fun i hi => rfl
  obtain ⟨hmap, -, -, hσ⟩ := entered_of_gives_appendInputs hc .empty .empty hnames hgives
  obtain ⟨final', hd', hsame⟩ := hρ.differentiates hσ he hd
  have hsome : ∀ e ∈ names, ∃ t, final'.gradient? e.2 = some t := by
    intro j hj
    obtain ⟨i, hi, hij⟩ := List.mem_map.1 (hmap ▸ List.mem_map_of_mem (f := Prod.fst) hj)
    obtain ⟨a, _, t, ha, -, ht, -⟩ := hσ.gradient? he hd' i hi
    have hfound : (handles names).lookup j.1 = some (.node j.2) := by
      rw [handles, lookup_map_snd, lookup_of_mem (hmap ▸ hnames) hj]
      rfl
    rw [hij, hfound, Option.some.injEq, Ref.node_inj] at ha
    exact ⟨t, ha ▸ ht⟩
  obtain ⟨result, hread⟩ := exists_reads hsome
  refine ⟨result, (grads_eq_ok_iff hnames).2 ⟨names, h, final', hgives, hd', hread⟩, ?_⟩
  intro i hi a t ha ht
  obtain ⟨b, _, hb, -, -⟩ := hσ.leaf i hi
  exact hread.lookup hb ((hsame i hi a b ha hb).trans ht)

/-- There are gradients if and only if the expression can be differentiated with constants in the
place of all inputs. -/
theorem exists_grads_iff (hc : conversion.Settled) (hnames : (inputs.map Prod.fst).Nodup)
    (he : e.Plain (inputs.map Prod.fst)) :
    (∃ result, grads conversion e inputs = .ok result) ↔
      (∀ i ∈ inputs, ∃ v, conversion.any i.2 = .ok v) ∧
        ∃ final, Differentiates conversion (e.withConstants inputs) [] .empty final := by
  have hnil : Entered conversion [] [] .empty := .nil .empty .empty []
  have hfixed := fun hconvert => hnil.withConstants inputs hconvert hnames (fun _ _ => nofun) e
  constructor
  · rintro ⟨result, hresult⟩
    obtain ⟨ρ, g, final, hρ, hd, -⟩ := entered_of_grads hc hnames hresult
    obtain ⟨τ, h, hτ, -, hbuild⟩ := hfixed hρ.converts
    rw [List.append_nil] at hτ
    obtain ⟨final', ⟨r, built, hb, hrun⟩, -⟩ := hρ.differentiates hτ he hd
    exact ⟨hρ.converts, final', r, built, (hbuild r built).1 hb, hrun⟩
  · rintro ⟨hconvert, final, r, built, hb, hrun⟩
    obtain ⟨τ, h, hτ, -, hbuild⟩ := hfixed hconvert
    rw [List.append_nil] at hτ
    obtain ⟨result, hresult, -⟩ :=
      exists_grads_of_entered hc hτ hnames he ⟨r, built, (hbuild r built).2 hb, hrun⟩
    exact ⟨result, hresult⟩

/-- In another order the inputs have the same gradients. -/
theorem exists_grads_of_perm (hc : conversion.Settled) (hnames : (inputs.map Prod.fst).Nodup)
    (he : e.Plain (inputs.map Prod.fst)) {result : List (String × Tensor A)}
    (hresult : grads conversion e inputs = .ok result) {inputs' : List (String × D)}
    (hperm : inputs'.Perm inputs) :
    ∃ result', grads conversion e inputs' = .ok result' ∧ result'.Perm result := by
  obtain ⟨ρ, g, final, hρ, hd, hfst, hread⟩ := entered_of_grads hc hnames hresult
  have hkeys : (inputs'.map Prod.fst).Perm (inputs.map Prod.fst) := hperm.map Prod.fst
  obtain ⟨result', hresult', hread'⟩ := exists_grads_of_entered hc (hρ.of_subset hperm.subset)
    (hkeys.nodup_iff.2 hnames) (he.mono hkeys.symm.subset) hd
  obtain ⟨-, -, -, -, -, hfst', -⟩ := entered_of_grads hc (hkeys.nodup_iff.2 hnames) hresult'
  refine ⟨result', hresult', perm_of_lookup (hfst ▸ hnames) (hfst' ▸ hfst ▸ hkeys) fun s hs => ?_⟩
  rw [hfst] at hs
  obtain ⟨i, hi, rfl⟩ := List.mem_map.1 hs
  obtain ⟨a, _, t, ha, -, ht, -⟩ := hρ.gradient? he hd i hi
  rw [hread i.1 a t ha ht, hread' i (hperm.symm.subset hi) a t ha ht]

/-- The gradients of an expression of the inputs with respect to all of them, from one pass, are
those from one pass for each input: they stand in the order of the inputs, and the gradient with
respect to an input is the same tensor as the gradient with respect to this input alone, where the
other inputs are constants. It has the shape of the input, and is zero where the expression does not
depend on the input. In another order the inputs have the same gradients. -/
theorem grads_eq_grad_of_each [Arithmetic Machine] (c : Config) (e : Expression Datum)
    (inputs : List (String × Datum)) (hnames : (inputs.map Prod.fst).Nodup)
    (he : e.Plain (inputs.map Prod.fst)) (result : List (String × Tensor Machine))
    (hresult : grads c.conversion e inputs = .ok result) :
    result.map Prod.fst = inputs.map Prod.fst ∧
      (∀ i ∈ inputs, ∃ v t, c.conversion.any i.2 = .ok v ∧ result.lookup i.1 = some t ∧
        grad c.conversion (e.withOthersFixed i.1 inputs) i.2 = .ok t ∧ t.shape = v.shape ∧
          (i.1 ∉ e.uses → t = v.zerosLike)) ∧
      ∀ inputs' : List (String × Datum), inputs'.Perm inputs →
        ∃ result', grads c.conversion e inputs' = .ok result' ∧ result'.Perm result := by
  have hc := c.settled_conversion
  obtain ⟨ρ, g, final, hρ, hd, hfst, hread⟩ := entered_of_grads hc hnames hresult
  refine ⟨hfst, fun i hi => ?_, fun inputs' => exists_grads_of_perm hc hnames he hresult⟩
  obtain ⟨a, v, t, ha, hv, ht, hshape, hzero⟩ := hρ.gradient? he hd i hi
  exact ⟨v, t, hv, hread i.1 a t ha ht, hρ.grad_withOthersFixed hc hnames he hd hi ha ht, hshape,
    hzero⟩

/-- A number, a vector and an unused number, and a product that is used twice. -/
theorem grads_of_shared_product :
    let e : Expression Datum := .share "y" (.binary .mul (.name "a") (.name "b"))
      (.binary .dot (.name "y") (.sub (.name "y") (.name "a")))
    let inputs : List (String × Datum) :=
      [("a", .int 2), ("b", .list [.int 1, .int 3]), ("c", .bool true)]
    ∃ result, grads Config.standard.conversion e inputs = .ok result ∧
      result.map Prod.fst = ["a", "b", "c"] ∧
      (∀ i ∈ inputs, ∃ t, result.lookup i.1 = some t ∧
        grad Config.standard.conversion (e.withOthersFixed i.1 inputs) i.2 = .ok t) ∧
      ∃ v, Config.standard.conversion.any (.bool true) = .ok v ∧
        result.lookup "c" = some v.zerosLike := by
  intro e inputs
  have hplain : e.Plain (inputs.map Prod.fst) := by
    simp [e, inputs, Expression.Plain]
  obtain ⟨result, hresult⟩ : ∃ result, grads Config.standard.conversion e inputs = .ok result := by
    refine (exists_grads_iff Config.standard.settled_conversion (by decide) hplain).2 ⟨?_, ?_⟩
    · simp only [inputs, List.forall_mem_cons]
      exact ⟨⟨_, rfl⟩, ⟨_, rfl⟩, ⟨_, rfl⟩, nofun⟩
    · refine ⟨_, .node 6, _, Action.gives_of_outcome ?_, Action.gives_of_outcome ?_⟩ <;>
        decide +kernel
  obtain ⟨hfst, heach, -⟩ :=
    grads_eq_grad_of_each Config.standard e inputs (by decide) hplain result hresult
  refine ⟨result, hresult, hfst, fun i hi => ?_, ?_⟩
  · obtain ⟨_, t, -, ht, hgrad, -⟩ := heach i hi
    exact ⟨t, ht, hgrad⟩
  · obtain ⟨v, t, hv, ht, -, -, hzero⟩ := heach ("c", .bool true) (by simp [inputs])
    rw [hzero (by decide)] at ht
    exact ⟨v, hv, ht⟩

end Gradient

end DiffGraph
