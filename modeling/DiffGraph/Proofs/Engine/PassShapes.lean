import DiffGraph.Config
import DiffGraph.Proofs.Engine.Coherence
import DiffGraph.Proofs.Engine.PathSum
import DiffGraph.Proofs.Operator.Shapes

/-!
# The shapes of a reverse pass

On a coherent graph of tensors every gradient that a reverse pass handles has the shape of the
value of its node, so the sums of gradients never fail and neither does any derivative rule but
that of `dot`. A pass fails exactly if it reaches a `dot` whose operands cannot both be given a
gradient, and then because the axes do not match.
-/

namespace DiffGraph

variable {D : Type} {A : DType → Type} [Arithmetic A]

namespace Graph

variable {g h : Graph (Tensor A)} {n m : Nat} {d : Tensor A}

/-- A gradient has the shape of the value that its node holds. -/
def Shaped (g : Graph (Tensor A)) (n : Nat) (d : Tensor A) : Prop :=
  ∃ v, g.value? n = some v ∧ d.shape = v.shape

omit [Arithmetic A] in
theorem Shaped.shape {v : Tensor A} (hs : g.Shaped n d) (hv : g.value? n = some v) :
    d.shape = v.shape := by
  obtain ⟨w, hw, hshape⟩ := hs
  rw [hshape, Option.some.inj (hw.symm.trans hv)]

/-- A node is a `dot` whose operands cannot both be given a gradient. -/
def Unfit (g : Graph (Tensor A)) (n : Nat) : Prop :=
  ∃ l r x y, (g.application n : Except (Fault TensorError) Application) = .ok (.binary .dot l r) ∧
    g.value? l = some x ∧ g.value? r = some y ∧ ¬ Grid.DotFits x.shape y.shape

/-! ## One visit -/

theorem Shaped.accumulated (hs : g.Shaped n d) (hd : ∀ m t, h.deriv? m = some t → g.Shaped m t) :
    ∃ t, h.accumulated (Tensor.rules A) n d = .ok t ∧ g.Shaped n t := by
  unfold Graph.accumulated
  cases ht : h.deriv? n with
  | none => exact ⟨d, rfl, hs⟩
  | some before =>
      obtain ⟨v, hv, hshape⟩ := hs
      obtain ⟨w, hw, hbefore⟩ := hd n before ht
      rw [hv, Option.some.injEq] at hw
      subst hw
      obtain ⟨t, hsum, hts⟩ := Tensor.zip_eq_ok_of_shape_eq (f := Arithmetic.add)
        (hbefore.trans hshape.symm)
      exact ⟨t, Except.mapError_eq_ok_iff.2 hsum, v, hv, hts.trans hshape⟩

omit [Arithmetic A] in
/-- Another gradient in the shape of the value of its node. -/
theorem derivs_withDeriv {total : Tensor A} (hd : ∀ m t, h.deriv? m = some t → g.Shaped m t)
    (ht : g.Shaped n total) (m : Nat) (t : Tensor A)
    (hm : (h.withDeriv n (some total)).deriv? m = some t) : g.Shaped m t := by
  rw [deriv?_withDeriv] at hm
  split at hm
  · rename_i hn
    rw [hn.1, ← Option.some.inj hm]
    exact ht
  · exact hd m t hm

/-- Gradients in the shapes of the values can be added up, and stay in these shapes. -/
theorem accumulate_eq_ok {vs : List (Visit (Tensor A))}
    (hs : ∀ w ∈ vs, g.Shaped w.node w.gradient) (hd : ∀ m t, h.deriv? m = some t → g.Shaped m t) :
    ∃ k, h.accumulate (Tensor.rules A) vs = .ok k ∧ ∀ m t, k.deriv? m = some t → g.Shaped m t := by
  induction vs generalizing h with
  | nil => exact ⟨h, rfl, hd⟩
  | cons w vs ih =>
      obtain ⟨t, ht, hts⟩ := (hs w List.mem_cons_self).accumulated hd
      obtain ⟨k, hk, hkd⟩ :=
        ih (fun u hu => hs u (List.mem_cons_of_mem w hu)) (derivs_withDeriv hd hts)
      exact ⟨k, accumulate_cons_eq_ok_iff.2 ⟨t, ht, hk⟩, hkd⟩

/-- The same where a pass starts, without gradients. -/
theorem accumulate_withoutDerivs_eq_ok {vs : List (Visit (Tensor A))}
    (hs : ∀ w ∈ vs, g.Shaped w.node w.gradient) :
    ∃ k, g.withoutDerivs.accumulate (Tensor.rules A) vs = .ok k ∧
      ∀ m t, k.deriv? m = some t → g.Shaped m t := by
  refine accumulate_eq_ok hs fun m t ht => ?_
  rw [deriv?_withoutDerivs] at ht
  cases ht

/-- Where both operands of every `dot` can be given a gradient, a visit leads to further ones. -/
theorem Shaped.contributions (hc : Coherent (Tensor.rules A) g) (hs : g.Shaped n d)
    (hfit : ¬ g.Unfit n) :
    ∃ parts, g.contributions (Tensor.rules A) n d = .ok parts ∧
      ∀ p ∈ parts, g.Shaped p.1 p.2 := by
  obtain ⟨v, hv, hshape⟩ := hs
  rcases hc.cases hv with ha | ⟨op, a, x, ha, hx, hval⟩ | ⟨op, l, r, x, y, ha, hx, hy, hval⟩
  · exact ⟨[], contributions_eq_ok_iff.2 (.inl ⟨ha, rfl⟩), fun p hp => by cases hp⟩
  · obtain ⟨v', hv', hxv⟩ := op.value_eq_ok x
    rw [Except.ok.inj (hval.symm.trans hv')] at hshape
    obtain ⟨da, hda, hsa⟩ := op.pull_eq_ok (hshape.trans hxv)
    refine ⟨[(a, da)], contributions_eq_ok_iff.2
      (.inr (.inl ⟨op, a, x, da, ha, hx, hda, rfl⟩)), fun p hp => ?_⟩
    rw [List.mem_singleton.1 hp]
    exact ⟨x, hx, hsa⟩
  · have hpull : ∃ dl dr, op.pull x y d = .ok (dl, dr) ∧ dl.shape = x.shape ∧
        dr.shape = y.shape := by
      by_cases hop : op = .dot
      · subst hop
        obtain ⟨hnil, b, hb⟩ := Binary.shape_value_dot hval
        refine Binary.pull_dot_eq_ok (hshape.trans hnil) hb ?_
        by_contra hdot
        exact hfit ⟨l, r, x, y, ha, hx, hy, hdot⟩
      · refine Binary.pull_eq_ok hop ?_
        rw [hshape]
        exact Binary.shape_value hop hval
    obtain ⟨dl, dr, hd, hsl, hsr⟩ := hpull
    refine ⟨[(l, dl), (r, dr)], contributions_eq_ok_iff.2
      (.inr (.inr ⟨op, l, r, x, y, dl, dr, ha, hx, hy, hd, rfl⟩)), fun p hp => ?_⟩
    simp only [List.mem_cons, List.not_mem_nil, or_false] at hp
    rcases hp with rfl | rfl
    · exact ⟨x, hx, hsl⟩
    · exact ⟨y, hy, hsr⟩

/-- At any other `dot` a visit fails, because the axes do not match. -/
theorem Shaped.contributions_unfit (hc : Coherent (Tensor.rules A) g) (hs : g.Shaped n d)
    (hfit : g.Unfit n) :
    ∃ e, g.contributions (Tensor.rules A) n d = .error (.rule e) ∧ e.Misfit := by
  obtain ⟨v, hv, hshape⟩ := hs
  obtain ⟨l, r, x, y, ha, hx, hy, hdot⟩ := hfit
  obtain ⟨x', y', hx', hy', hval⟩ := hc.binary hv ha
  rw [hx, Option.some.injEq] at hx'
  rw [hy, Option.some.injEq] at hy'
  rw [← hx', ← hy'] at hval
  obtain ⟨hnil, b, hb⟩ := Binary.shape_value_dot hval
  obtain ⟨e, he, hcause⟩ := Binary.pull_dot_eq_error (hshape.trans hnil) hb hdot
  refine ⟨e, ?_, hcause⟩
  have hrule : (Tensor.rules A).binaryPull .dot x y d = .error e := he
  unfold Graph.contributions
  simp [ha, operandValue, hx, hy, hrule]

theorem Shaped.not_unfit (hc : Coherent (Tensor.rules A) g) (hs : g.Shaped n d)
    {parts : List (Nat × Tensor A)} (hp : g.contributions (Tensor.rules A) n d = .ok parts) :
    ¬ g.Unfit n := by
  intro hfit
  obtain ⟨e, he, -⟩ := hs.contributions_unfit hc hfit
  rw [hp] at he
  cases he

theorem Shaped.of_contributions (hc : Coherent (Tensor.rules A) g) (hs : g.Shaped n d)
    {parts : List (Nat × Tensor A)} (hp : g.contributions (Tensor.rules A) n d = .ok parts) :
    ∀ p ∈ parts, g.Shaped p.1 p.2 := by
  obtain ⟨parts', hparts', hshaped⟩ := hs.contributions hc (hs.not_unfit hc hp)
  rw [hp, Except.ok.injEq] at hparts'
  rwa [hparts']

theorem Visits.shaped {vs : List (Visit (Tensor A))} (hv : Visits (Tensor.rules A) g n d vs)
    (hc : Coherent (Tensor.rules A) g) (hs : g.Shaped n d) :
    ∀ w ∈ vs, g.Shaped w.node w.gradient := by
  induction hv with
  | leaf =>
      intro w hw
      rwa [List.mem_singleton.1 hw]
  | @unary n a op d x da vs ha hx hp _ ih =>
      have hparts := hs.of_contributions hc
        (contributions_eq_ok_iff.2 (.inr (.inl ⟨op, a, x, da, ha, hx, hp, rfl⟩)))
      intro w hw
      rcases List.mem_cons.1 hw with rfl | hw
      · exact hs
      · obtain ⟨u, hu, rfl⟩ := List.mem_map.1 hw
        exact ih (hparts (a, da) (by simp)) u hu
  | @binary n l r op d x y dl dr vs ws ha hx hy hp _ _ ihl ihr =>
      have hparts := hs.of_contributions hc
        (contributions_eq_ok_iff.2 (.inr (.inr ⟨op, l, r, x, y, dl, dr, ha, hx, hy, hp, rfl⟩)))
      intro w hw
      rcases List.mem_cons.1 hw with rfl | hw
      · exact hs
      · rcases List.mem_append.1 hw with hw | hw
        · obtain ⟨u, hu, rfl⟩ := List.mem_map.1 hw
          exact ihl (hparts (l, dl) (by simp)) u hu
        · obtain ⟨u, hu, rfl⟩ := List.mem_map.1 hw
          exact ihr (hparts (r, dr) (by simp)) u hu

/-! ## The loop -/

/-- What holds at every step of a pass. -/
structure Passing (g : Graph (Tensor A)) (steps : Nat) (stack : List (Nat × Tensor A))
    (h : Graph (Tensor A)) : Prop where
  same : h.withoutDerivs = g.withoutDerivs
  waiting : ∀ p ∈ stack, g.Shaped p.1 p.2
  derivs : ∀ m t, h.deriv? m = some t → g.Shaped m t
  enough : room stack ≤ steps

/-- A visit that does not fail leads to the same situation. -/
theorem Passing.step (hg : g.WellFormed) {steps : Nat} {stack parts : List (Nat × Tensor A)}
    {total : Tensor A} (hp : g.Passing (steps + 1) ((n, d) :: stack) h) (ht : g.Shaped n total)
    (hc : g.contributions (Tensor.rules A) n d = .ok parts) (hs : ∀ p ∈ parts, g.Shaped p.1 p.2) :
    g.Passing steps (parts ++ stack) (h.withDeriv n (some total)) where
  same := (withoutDerivs_withDeriv _ _ _).trans hp.same
  waiting p hm := by
    rcases List.mem_append.1 hm with hm | hm
    · exact hs p hm
    · exact hp.waiting p (List.mem_cons_of_mem _ hm)
  derivs := derivs_withDeriv hp.derivs ht
  enough := by
    have hroom := room_contributions hg hc
    have henough : 2 ^ (n + 1) - 1 + room stack ≤ steps + 1 := hp.enough
    rw [room_append]
    omega

/-- The loop ends with gradients of the right shapes; it fails where something on the stack leads
to a `dot` that does not fit, and nowhere else. -/
theorem Passing.sweepStack (hg : g.WellFormed) (hc : Coherent (Tensor.rules A) g) {steps : Nat}
    {stack : List (Nat × Tensor A)} (done : List Nat) (hp : g.Passing steps stack h) :
    (∀ m t, (sweepStack (Tensor.rules A) steps stack h done).graph.deriv? m = some t →
        g.Shaped m t) ∧
      (((sweepStack (Tensor.rules A) steps stack h done).outcome = .ok () ∧
          ∀ p ∈ stack, ∀ m, g.Reaches p.1 m → ¬ g.Unfit m) ∨
        ∃ p ∈ stack, ∃ m e, g.Reaches p.1 m ∧ g.Unfit m ∧ e.Misfit ∧
          (DiffGraph.sweepStack (Tensor.rules A) steps stack h done).outcome =
            .error (.rule e)) := by
  fun_induction DiffGraph.sweepStack (Tensor.rules A) steps stack h done with
  | case1 => exact ⟨hp.derivs, .inl ⟨rfl, fun p hm => by cases hm⟩⟩
  | case2 p stack h done =>
      have henough := hp.enough
      have hpos := Nat.two_pow_pos p.1
      rw [room_cons, Nat.pow_succ] at henough
      omega
  | case3 steps n d stack h done e he =>
      obtain ⟨t, ht, -⟩ := (hp.waiting (n, d) List.mem_cons_self).accumulated hp.derivs
      rw [ht] at he
      cases he
  | case4 steps n d stack h done total ht h' e he =>
      have hd := hp.waiting (n, d) List.mem_cons_self
      obtain ⟨t, htotal, hts⟩ := hd.accumulated hp.derivs
      rw [ht, Except.ok.injEq] at htotal
      subst htotal
      rw [contributions_congr ((withoutDerivs_withDeriv h n _).trans hp.same)] at he
      by_cases hfit : g.Unfit n
      · obtain ⟨e', he', hcause⟩ := hd.contributions_unfit hc hfit
        rw [he', Except.error.injEq] at he
        refine ⟨fun m t hm => ?_, .inr ⟨(n, d), List.mem_cons_self, n, e', .refl, hfit, hcause, ?_⟩⟩
        · exact derivs_withDeriv hp.derivs hts m t hm
        · rw [he]
      · obtain ⟨parts, hparts, -⟩ := hd.contributions hc hfit
        rw [hparts] at he
        cases he
  | case5 steps n d stack h done total ht h' parts hparts ih =>
      have hd := hp.waiting (n, d) List.mem_cons_self
      obtain ⟨t, htotal, hts⟩ := hd.accumulated hp.derivs
      rw [ht, Except.ok.injEq] at htotal
      subst htotal
      rw [contributions_congr ((withoutDerivs_withDeriv h n _).trans hp.same)] at hparts
      have hfit := hd.not_unfit hc hparts
      have hshaped := hd.of_contributions hc hparts
      have huses : ∀ a, g.Uses n a ↔ ∃ p ∈ parts, p.1 = a := by
        intro a
        rw [Uses, ← map_fst_contributions hg hparts, List.mem_map]
      obtain ⟨hderivs, ⟨hok, hreach⟩ | ⟨p, hmem, m, e, hreach, hunfit, hcause, herr⟩⟩ :=
        ih (hp.step hg hts hparts hshaped)
      · refine ⟨hderivs, .inl ⟨hok, fun p hmem m hm => ?_⟩⟩
        rcases List.mem_cons.1 hmem with rfl | hmem
        · rcases Relation.ReflTransGen.cases_head hm with rfl | ⟨a, ha, hm⟩
          · exact hfit
          · obtain ⟨p, hp', rfl⟩ := (huses a).1 ha
            exact hreach p (List.mem_append_left _ hp') m hm
        · exact hreach p (List.mem_append_right _ hmem) m hm
      · refine ⟨hderivs, .inr ?_⟩
        rcases List.mem_append.1 hmem with hmem | hmem
        · have ha := (huses p.1).2 ⟨p, hmem, rfl⟩
          exact ⟨(n, d), List.mem_cons_self, m, e, hreach.head ha, hunfit, hcause, herr⟩
        · exact ⟨p, List.mem_cons_of_mem _ hmem, m, e, hreach, hunfit, hcause, herr⟩

/-- A pass either makes all gradients in the shapes of the values, or meets a `dot` that does not
fit. -/
theorem sweep_shaped (hg : g.WellFormed) (hc : Coherent (Tensor.rules A) g) {v : Tensor A}
    (hv : g.value? n = some v) :
    (∀ m t, (sweep (Tensor.rules A) g n v).graph.deriv? m = some t → g.Shaped m t) ∧
      (((sweep (Tensor.rules A) g n v).outcome = .ok () ∧ ∀ m, g.Reaches n m → ¬ g.Unfit m) ∨
        ∃ m e, g.Reaches n m ∧ g.Unfit m ∧ e.Misfit ∧
          (sweep (Tensor.rules A) g n v).outcome = .error (.rule e)) := by
  have hn := lt_size_of_value? hv
  have hp : g.Passing (sweepSteps g) [(n, v.onesLike)] g.withoutDerivs := by
    refine ⟨withoutDerivs_withoutDerivs g, fun p hm => ?_, fun m t hd => ?_, ?_⟩
    · rw [List.mem_singleton.1 hm]
      exact ⟨v, hv, rfl⟩
    · rw [deriv?_withoutDerivs] at hd
      cases hd
    · have hle : 2 ^ (n + 1) ≤ sweepSteps g := Nat.pow_le_pow_right (by omega) hn
      simp only [room, List.map_cons, List.map_nil, List.sum_cons, List.sum_nil]
      omega
  obtain ⟨hderivs, ⟨hok, hreach⟩ | ⟨p, hm, m, e, hreach, hunfit, hcause, herr⟩⟩ :=
    hp.sweepStack hg hc []
  · exact ⟨hderivs, .inl ⟨hok, hreach (n, v.onesLike) List.mem_cons_self⟩⟩
  · rw [List.mem_singleton.1 hm] at hreach
    exact ⟨hderivs, .inr ⟨m, e, hreach, hunfit, hcause, herr⟩⟩

end Graph

open DiffGraph.Graph

/-- From a node that holds a value a reverse pass succeeds exactly if both operands of every `dot`
that it reaches can be given a gradient; then every node that it reaches has a gradient in the
shape of its value. If it fails, it is because the axes of a gradient do not match. -/
theorem evalDeriv_ok_iff_dots_fit (conversion : Conversion D (Tensor A) TensorError)
    (calls : List (Call D)) (n : Nat)
    (hv : ((Graph.empty.after conversion (Tensor.rules A) calls).value? n).isSome) :
    let g := Graph.empty.after conversion (Tensor.rules A) calls
    let reply := (Action.evalDeriv (Tensor.rules A) (.node n)).run g
    (reply.outcome = .ok () ↔ ∀ m l r x y, g.Reaches n m →
      (g.application m : Except (Fault TensorError) Application) = .ok (.binary .dot l r) →
      g.value? l = some x → g.value? r = some y → Grid.DotFits x.shape y.shape) ∧
    (reply.outcome = .ok () → ∀ m, g.Reaches n m →
      ∃ v d, g.value? m = some v ∧ reply.graph.deriv? m = some d ∧ d.shape = v.shape) ∧
    ∀ e, reply.outcome = .error e → ∃ size source target,
      e = .rule (.notReshapable size target) ∨ e = .rule (.notSpreadable source target) := by
  intro g reply
  obtain ⟨hg, hc⟩ := coherent_after conversion (Tensor.rules A) calls
  obtain ⟨v, hv⟩ := Option.isSome_iff_exists.1 hv
  have hrun := Action.run_evalDeriv_node g (Tensor.rules A) hv
  have hout : reply.outcome = (sweep (Tensor.rules A) g n v).outcome :=
    congrArg Reply.outcome hrun
  have hgraph : reply.graph = (sweep (Tensor.rules A) g n v).graph := congrArg Reply.graph hrun
  rw [hout, hgraph]
  obtain ⟨hderivs, hcases⟩ := sweep_shaped hg hc hv
  refine ⟨⟨fun hok m l r x y hm ha hx hy => ?_, fun hfit => ?_⟩, fun hok m hm => ?_, fun e he => ?_⟩
  · rcases hcases with ⟨-, hreach⟩ | ⟨_, e, -, -, -, herr⟩
    · by_contra hdot
      exact hreach m hm ⟨l, r, x, y, ha, hx, hy, hdot⟩
    · rw [hok] at herr
      cases herr
  · rcases hcases with ⟨hok, -⟩ | ⟨m, e, hm, ⟨l, r, x, y, ha, hx, hy, hdot⟩, -, -⟩
    · exact hok
    · exact (hdot (hfit m l r x y hm ha hx hy)).elim
  · have hsome := (isSome_deriv?_sweep_iff hg (lt_size_of_value? hv) hok m).2 hm
    obtain ⟨d, hd⟩ := Option.isSome_iff_exists.1 hsome
    obtain ⟨w, hw, hshape⟩ := hderivs m d hd
    exact ⟨w, d, hw, hd, hshape⟩
  · rcases hcases with ⟨hok, -⟩ | ⟨_, e', -, -, hcause, herr⟩
    · rw [hok] at he
      cases he
    · rw [herr, Except.error.injEq] at he
      rcases hcause with ⟨k, s, rfl⟩ | ⟨t, s, rfl⟩
      · exact ⟨k, [], s, .inl he.symm⟩
      · exact ⟨0, t, s, .inr he.symm⟩

/-- A number that is multiplied with a vector gets one gradient, and the vector one for each
element. -/
theorem evalDeriv_of_spread_dot :
    let g := Graph.empty.after Config.standard.conversion (Tensor.rules Machine)
      [.constant .any (.int 2), .constant .any (.list [.int 1, .int 2, .int 3]),
        .binary .dot (.node 0) (.node 1), .evalValue (.node 2)]
    ∃ v d, g.value? 1 = some v ∧
      ((Action.evalDeriv (Tensor.rules Machine) (.node 2)).run g).graph.deriv? 1 = some d ∧
      d.shape = v.shape := by
  intro g
  obtain ⟨-, hshape, -⟩ := evalDeriv_ok_iff_dots_fit Config.standard.conversion
    [.constant .any (.int 2), .constant .any (.list [.int 1, .int 2, .int 3]),
      .binary .dot (.node 0) (.node 1), .evalValue (.node 2)] 2 (by decide +kernel)
  have huse : 1 ∈ g.inputsOf 2 := by decide +kernel
  exact hshape (by decide +kernel) 1 (.single huse)

/-- A column and a row are multiplied and summed up, but the reverse pass from the sum fails: the
summed row is to fill the column. -/
theorem evalDeriv_of_stretched_dot :
    let g := Graph.empty.after Config.standard.conversion (Tensor.rules Machine)
      [.constant .any (.list [.list [.int 1], .list [.int 2]]),
        .constant .any (.list [.list [.int 1, .int 2, .int 3]]),
        .binary .dot (.node 0) (.node 1), .evalValue (.node 2)]
    (g.value? 2).isSome ∧
      ((Action.evalDeriv (Tensor.rules Machine) (.node 2)).run g).outcome =
        .error (.rule (.notReshapable 1 [2, 1])) := by
  decide +kernel

/-- A row of fewer axes than the column has is not summed, and cannot fill the column either. -/
example :
    let g := Graph.empty.after Config.standard.conversion (Tensor.rules Machine)
      [.constant .any (.list [.list [.int 1], .list [.int 2]]),
        .constant .any (.list [.int 1, .int 2, .int 3]),
        .binary .dot (.node 0) (.node 1), .evalValue (.node 2)]
    ((Action.evalDeriv (Tensor.rules Machine) (.node 2)).run g).outcome =
      .error (.rule (.notSpreadable [3] [2, 1])) := by
  decide +kernel

end DiffGraph
