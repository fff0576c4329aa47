import DiffGraph.Proofs.Engine.Refusal

/-!
# Properties of the values that a graph holds

A property of values that all rules keep, and that the values of leaves have when they are handed
in, holds of every value and every gradient in a graph, at every moment of a session. The walks of
the engine are followed step by step, so this does not depend on their success.
-/

namespace DiffGraph

variable {D V E : Type} {rules : Rules V E} {P : V → Prop}

/-- A property of values that holds of what the rules give if it holds of what they are given. -/
structure Rules.Keep (rules : Rules V E) (P : V → Prop) : Prop where
  unary : ∀ {op x v}, P x → rules.unary op x = .ok v → P v
  binary : ∀ {op x y v}, P x → P y → rules.binary op x y = .ok v → P v
  unaryPull : ∀ {op x d v}, P x → P d → rules.unaryPull op x d = .ok v → P v
  binaryPull : ∀ {op x y d v}, P x → P y → P d → rules.binaryPull op x y d = .ok v →
    P v.1 ∧ P v.2
  seed : ∀ {x}, P x → P (rules.seed x)
  add : ∀ {x y v}, P x → P y → rules.add x y = .ok v → P v

namespace Graph

variable {g h : Graph V} {n : Nat}

/-- Every value and every gradient in the graph has the property. -/
structure Holds (P : V → Prop) (g : Graph V) : Prop where
  value : ∀ n v, g.value? n = some v → P v
  deriv : ∀ n d, g.deriv? n = some d → P d

namespace Holds

theorem empty : (Graph.empty : Graph V).Holds P :=
  ⟨fun n v hv => by simp [Graph.empty, value?] at hv,
    fun n d hd => by simp [Graph.empty, deriv?] at hd⟩

theorem append_fresh (hg : g.Holds P) (k : Kind) {v : Option V} (hv : ∀ x, v = some x → P x) :
    (g.append (.fresh k v)).Holds P where
  value m x hx := by
    rw [value?_append] at hx
    split at hx
    · exact hv x hx
    · exact hg.value m x hx
  deriv m d hd := hg.deriv m d (by rwa [deriv?_append_fresh] at hd)

theorem appendOperator (hg : g.Holds P) (k : Kind) (operands : List Nat) :
    (g.appendOperator k operands).Holds P :=
  ⟨fun m x hx => hg.value m x (by rwa [value?_appendOperator] at hx),
    fun m d hd => hg.deriv m d (by rwa [deriv?_appendOperator] at hd)⟩

theorem bindName (hg : g.Holds P) (s : String) (n : Nat) : (g.bindName s n).Holds P :=
  ⟨hg.value, hg.deriv⟩

theorem withValue (hg : g.Holds P) (n : Nat) {v : V} (hv : P v) :
    (g.withValue n (some v)).Holds P where
  value m x hx := by
    rw [value?_withValue] at hx
    split at hx
    · rw [← Option.some.inj hx]
      exact hv
    · exact hg.value m x hx
  deriv m d hd := hg.deriv m d (by rwa [deriv?_withValue] at hd)

theorem withDeriv (hg : g.Holds P) (n : Nat) {d : V} (hd : P d) :
    (g.withDeriv n (some d)).Holds P where
  value m x hx := hg.value m x (by rwa [value?_withDeriv] at hx)
  deriv m x hx := by
    rw [deriv?_withDeriv] at hx
    split at hx
    · rw [← Option.some.inj hx]
      exact hd
    · exact hg.deriv m x hx

theorem withoutDerivs (hg : g.Holds P) : g.withoutDerivs.Holds P :=
  ⟨fun m x hx => hg.value m x (by rwa [value?_withoutDerivs] at hx),
    fun m d hd => by simp at hd⟩

theorem dropComputed (hg : g.Holds P) (n : Nat) : (g.dropComputed n).Holds P where
  value m x hx := by
    rw [value?_dropComputed] at hx
    split at hx
    · cases hx
    · exact hg.value m x hx
  deriv m d hd := hg.deriv m d (by rwa [deriv?_dropComputed] at hd)

/-! ## The walks of the engine -/

theorem invalidateStack (hg : g.Holds P) (fresh : Nat) (stack seen : List Int) :
    (invalidateStack fresh stack g seen : Invalidation V E).graph.Holds P := by
  fun_induction DiffGraph.invalidateStack (E := E) fresh stack g seen with
  | case1 => exact hg
  | case2 fresh i stack g seen _ ih => exact ih hg
  | case3 fresh i stack g seen _ n _ g' m _ ih => exact ih (hg.dropComputed n)
  | case4 fresh i stack g seen _ n _ g' e _ => exact hg.dropComputed n
  | case5 => exact hg

theorem invalidate (hg : g.Holds P) (n : Nat) :
    (DiffGraph.invalidate g n : Invalidation V E).graph.Holds P :=
  hg.invalidateStack _ _ _

/-- A rule is applied to values that the operands hold. -/
theorem examine (hg : g.Holds P) (hr : rules.Keep P) {v : V}
    (hv : g.examine rules n = .ok (.value v)) : P v := by
  unfold Graph.examine at hv
  split at hv
  · cases hv
  · split at hv
    · cases hv
    · split at hv
      · cases hv
      · cases hv
      · obtain ⟨app, -, hv⟩ := Except.bind_eq_ok_iff.1 hv
        cases app with
        | leaf => cases hv
        | unary op a =>
            cases hx : g.value? a with
            | none => simp [apply, hx] at hv
            | some x =>
                cases hu : rules.unary op x with
                | error e => simp [apply, hx, hu, Except.map] at hv
                | ok w =>
                    simp only [apply, hx, hu, Except.mapError_ok, Except.map, Except.ok.injEq,
                      Finding.value.injEq] at hv
                    rw [← hv]
                    exact hr.unary (hg.value a x hx) hu
        | binary op l r =>
            cases hx : g.value? l with
            | none => simp [apply, hx] at hv
            | some x =>
                cases hy : g.value? r with
                | none => simp [apply, hx, hy] at hv
                | some y =>
                    cases hb : rules.binary op x y with
                    | error e => simp [apply, hx, hy, hb, Except.map] at hv
                    | ok w =>
                        simp only [apply, hx, hy, hb, Except.mapError_ok, Except.map,
                          Except.ok.injEq, Finding.value.injEq] at hv
                        rw [← hv]
                        exact hr.binary (hg.value l x hx) (hg.value r y hy) hb

theorem evaluate (hg : g.Holds P) (hr : rules.Keep P) (n : Nat) :
    (evaluate rules g n).graph.Holds P := by
  have hstack : ∀ steps stack done, (evaluateStack rules steps stack g done).graph.Holds P := by
    intro steps stack done
    fun_induction evaluateStack rules steps stack g done with
    | case1 | case2 | case3 => exact hg
    | case4 steps n stack g done _ ih => exact ih hg
    | case5 steps n stack g done operands _ ih => exact ih hg
    | case6 steps n stack g done v hv ih => exact ih (hg.withValue n (hg.examine hr hv))
  exact hstack _ _ _

theorem contributions (hg : g.Holds P) (hr : rules.Keep P) {d : V} (hd : P d)
    {parts : List (Nat × V)} (hp : g.contributions rules n d = .ok parts) :
    ∀ p ∈ parts, P p.2 := by
  rcases contributions_eq_ok_iff.1 hp with ⟨-, rfl⟩ | ⟨op, a, x, da, -, hx, hda, rfl⟩ |
    ⟨op, l, r, x, y, dl, dr, -, hx, hy, hds, rfl⟩
  · nofun
  · intro p hp
    rw [List.mem_singleton.1 hp]
    exact hr.unaryPull (hg.value a x hx) hd hda
  · have hkept := hr.binaryPull (hg.value l x hx) (hg.value r y hy) hd hds
    simp only [List.mem_cons, List.not_mem_nil, or_false, forall_eq_or_imp, forall_eq]
    exact hkept

theorem accumulated (hg : g.Holds P) (hr : rules.Keep P) {d total : V} (hd : P d)
    (ht : g.accumulated rules n d = .ok total) : P total := by
  unfold Graph.accumulated at ht
  cases hb : g.deriv? n with
  | none =>
      rw [hb] at ht
      rw [← Except.ok.inj ht]
      exact hd
  | some before =>
      rw [hb] at ht
      exact hr.add (hg.deriv n before hb) hd (Except.mapError_eq_ok_iff.1 ht)

/-- The gradients that wait on the stack have the property as well. -/
theorem sweepStack (hg : g.Holds P) (hr : rules.Keep P) (steps : Nat) {stack : List (Nat × V)}
    (hs : ∀ p ∈ stack, P p.2) (done : List Nat) :
    (sweepStack rules steps stack g done).graph.Holds P := by
  fun_induction DiffGraph.sweepStack rules steps stack g done with
  | case1 | case2 | case3 => exact hg
  | case4 steps n d stack g done total ht g' e _ =>
      exact hg.withDeriv n (hg.accumulated hr (hs _ List.mem_cons_self) ht)
  | case5 steps n d stack g done total ht g' parts hp ih =>
      have hd : P d := hs (n, d) List.mem_cons_self
      have hg' : g'.Holds P := hg.withDeriv n (hg.accumulated hr hd ht)
      refine ih hg' fun p hmem => ?_
      rcases List.mem_append.1 hmem with hmem | hmem
      · exact hg'.contributions hr hd hp p hmem
      · exact hs p (List.mem_cons_of_mem _ hmem)

theorem sweep (hg : g.Holds P) (hr : rules.Keep P) {v : V} (hv : g.value? n = some v) :
    (sweep rules g n v).graph.Holds P := by
  refine hg.withoutDerivs.sweepStack hr _ ?_ _
  simp only [List.mem_singleton, forall_eq]
  exact hr.seed (hg.value n v hv)

/-! ## Calls -/

theorem setValue (hg : g.Holds P) (convert : D → Except E V) (r : Ref) (d : D)
    (hd : ∀ v, convert d = .ok v → P v) :
    ((Action.setValue convert r d).run g).graph.Holds P := by
  rw [Action.run_setValue]
  cases (g.check r : Except (Fault E) Nat) with
  | error e => exact hg
  | ok n =>
      simp only
      split
      · cases hv : convert d with
        | error e => exact hg
        | ok v =>
            simp only [Action.run_invalidateNode]
            cases ((g.withValue n (some v)).check r : Except (Fault E) Nat) with
            | error e => exact hg.withValue n (hd v hv)
            | ok m => exact (hg.withValue n (hd v hv)).invalidate m
      · exact hg

theorem variableOf (hg : g.Holds P) {conversion : Conversion D V E} (hc : conversion.Settled)
    (form : LeafForm) (s : String) (d : D) (hd : ∀ v, conversion.of form d = .ok v → P v) :
    ((Action.variableOf conversion (conversion.of form) s d).run g).graph.Holds P := by
  rw [Action.run_variableOf_of_settled hc]
  cases hv : conversion.of form d with
  | error e => exact hg
  | ok v =>
      simp only
      split
      · exact hg
      · refine (hg.append_fresh .var fun x hx => ?_).bindName s _
        rw [← Option.some.inj hx]
        exact hd v hv

theorem binary (hg : g.Holds P) (op : Binary) (lhs rhs : Ref) :
    ((Action.binary op lhs rhs : Action V E Nat).run g).graph.Holds P := by
  rw [Action.run_binary]
  cases (g.check lhs : Except (Fault E) Nat) with
  | error e => exact hg
  | ok l =>
      cases (g.check rhs : Except (Fault E) Nat) with
      | error e => exact hg
      | ok r => exact hg.appendOperator _ _

theorem evalValue (hg : g.Holds P) (hr : rules.Keep P) (r : Ref) :
    ((Action.evalValue rules r).run g).graph.Holds P := by
  rw [Action.run_evalValue]
  cases (g.resolve r : Except (Fault E) Nat) with
  | error e => exact hg
  | ok n =>
      simp only
      split
      · exact hg
      · exact hg
      · exact hg.evaluate hr n

theorem evalDeriv (hg : g.Holds P) (hr : rules.Keep P) (r : Ref) :
    ((Action.evalDeriv rules r).run g).graph.Holds P := by
  rw [Action.run_evalDeriv]
  cases (g.resolve r : Except (Fault E) Nat) with
  | error e => exact hg
  | ok n =>
      simp only
      split
      · exact hg
      · exact hg.withoutDerivs
      · rename_i hv _
        exact hg.sweep hr hv

end Holds

end Graph

open DiffGraph.Graph

/-- The data that a call hands in, with the form of its leaf. An assignment takes any rank. -/
def Call.supply : Call D → Option (LeafForm × D)
  | .constant form d | .variableOf form _ d => some (form, d)
  | .setValue _ d => some (.any, d)
  | _ => none

variable {conversion : Conversion D V E}

theorem Graph.Holds.perform {g : Graph V} (hg : g.Holds P) (hc : conversion.Settled)
    (hr : rules.Keep P) {call : Call D}
    (hd : ∀ s ∈ call.supply, ∀ v, conversion.of s.1 s.2 = .ok v → P v) :
    ((call.perform conversion rules).run g).graph.Holds P := by
  cases call with
  | constant form d =>
      rw [Call.perform, Action.graph_map, Action.run_constant]
      cases hv : conversion.of form d with
      | error e => exact hg
      | ok v =>
          refine hg.append_fresh .const fun x hx => ?_
          rw [← Option.some.inj hx]
          exact hd _ rfl v hv
  | emptyVariable s =>
      rw [Call.perform, Action.graph_map, Action.run_emptyVariable]
      split
      · exact hg
      · exact (hg.append_fresh .var fun x hx => by cases hx).bindName s _
  | variableOf form s d =>
      rw [Call.perform, Action.graph_map]
      exact hg.variableOf hc form s d (hd _ rfl)
  | unary op a =>
      rw [Call.perform, Action.graph_map, Action.run_unary]
      cases (g.check a : Except (Fault E) Nat) with
      | error e => exact hg
      | ok n => exact hg.appendOperator _ _
  | binary op l r =>
      rw [Call.perform, Action.graph_map]
      exact hg.binary op l r
  | sub l r =>
      rw [Call.perform, Action.graph_map, Action.run_sub]
      cases (g.check r : Except (Fault E) Nat) with
      | error e => exact hg
      | ok n => exact (hg.appendOperator _ _).binary .add l _
  | setName r s =>
      rw [Call.perform, Action.graph_map, Action.run_setName]
      cases (g.check r : Except (Fault E) Nat) with
      | error e => exact hg
      | ok n => exact hg.bindName s n
  | setValue r d =>
      rw [Call.perform, Action.graph_then_pure]
      exact hg.setValue conversion.any r d (hd _ rfl)
  | evalValue r =>
      rw [Call.perform, Action.graph_map]
      exact hg.evalValue hr r
  | evalDeriv r =>
      rw [Call.perform, Action.graph_then_pure]
      exact hg.evalDeriv hr r
  | zeroDerivs => exact hg.withoutDerivs
  | getIndex s | getValue r | getDeriv r | operands r | consumers r =>
      rw [Call.perform, Action.graph_map]
      exact hg

/-- What the leaves have and the rules keep is had by all that a graph holds after a session. -/
theorem holds_after (hc : conversion.Settled) (hr : rules.Keep P) {calls : List (Call D)}
    (hd : ∀ call ∈ calls, ∀ s ∈ call.supply, ∀ v, conversion.of s.1 s.2 = .ok v → P v) :
    (Graph.empty.after conversion rules calls).Holds P := by
  suffices h : ∀ g : Graph V, g.Holds P → (g.after conversion rules calls).Holds P from
    h _ .empty
  induction calls with
  | nil => exact fun g hg => hg
  | cons call calls ih =>
      rw [List.forall_mem_cons] at hd
      intro g hg
      rw [after_cons]
      exact ih hd.2 _ (hg.perform hc hr hd.1)

end DiffGraph
