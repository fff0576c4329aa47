import DiffGraph.Proofs.Engine.Backward
import DiffGraph.Proofs.Engine.Evaluation
import DiffGraph.Proofs.Engine.Invalidation
import DiffGraph.Proofs.Graph.Change

/-!
# Sessions keep graphs well-formed

The changes of a session put together with what the walks of the engine do to a graph.
-/

namespace DiffGraph

namespace Graph

variable {D V E : Type} {rules : Rules V E} {g h : Graph V}

theorem WellFormed.withoutDerivs (hg : g.WellFormed) : g.withoutDerivs.WellFormed :=
  hg.of_skeleton (skeleton_withoutDerivs g) fun n _ => value?_withoutDerivs g n

theorem WellFormed.assigned (hg : g.WellFormed) {n : Nat} (hn : g.kind? n = some .var) (v : V) :
    (g.withValue n (some v)).WellFormed := by
  refine hg.of_skeleton (skeleton_withValue g n _) fun m hm => value?_withValue_ne g n _ ?_
  rintro rfl
  rw [hn] at hm
  cases hm

theorem WellFormed.run_setValue (hg : g.WellFormed) {n : Nat} (hn : g.kind? n = some .var)
    {convert : D → Except E V} {d : D} {v : V} (hd : convert d = .ok v) :
    ∃ events, (Action.setValue convert (.node n) d).run g =
      ⟨.ok (), (invalidate (g.withValue n (some v)) n : Invalidation V E).graph, events⟩ := by
  have hlt : n < g.size := lt_size_of_kind? hn
  have hlt' : n < (g.withValue n (some v)).size := by rwa [size_withValue]
  have hok := (searching_invalidate (E := E) (hg.assigned hn v).consumersValid n).1
  rw [Action.run_setValue, check_node hlt]
  simp only [hn, if_true, hd, Action.run_invalidateNode, check_node hlt', hok]
  exact ⟨_, rfl⟩

/-- An assignment in a session: the value is written and what depends on it is dropped. -/
theorem after_setValue (conversion : Conversion D V E) (rules : Rules V E) {n : Nat}
    (hn : g.kind? n = some .var) {d : D} {v : V} (hd : conversion.any d = .ok v) :
    g.after conversion rules [.setValue (.node n) d] =
      (invalidate (g.withValue n (some v)) n : Invalidation V E).graph := by
  have hlt : n < g.size := lt_size_of_kind? hn
  have hlt' : n < (g.withValue n (some v)).size := by rwa [size_withValue]
  rw [after_cons, after_nil, Call.perform, Action.graph_then_pure, Action.run_setValue,
    check_node hlt]
  simp only [hn, if_true, hd, Action.run_invalidateNode, check_node hlt']

theorem Change.wellFormed (hc : Change rules g h) (hg : g.WellFormed) : h.WellFormed := by
  cases hc with
  | constant v => exact hg.append_leaf rfl fun _ => rfl
  | emptyVariable s hs =>
      have ha := hg.append_leaf (k := .var) (v := none) rfl (fun hk => by cases hk)
      exact ha.bindName s (by simp)
  | unary op a ha => exact hg.appendOperator rfl rfl (by simpa using ha)
  | binary op l r hl hr => exact hg.appendOperator rfl rfl (by simp [hl, hr])
  | name s n hn => exact hg.bindName s hn
  | assign n v hn =>
      have ha := hg.assigned hn v
      have hd := drops_invalidate (E := E) ha.consumersValid n
      exact ha.of_skeleton hd.skeleton fun m hm => hd.kept m (.inr (by rw [hm]; rfl))
  | evaluate n hn => exact (recalls_evaluate rules hg.ascending hn).enriches.wellFormed hg
  | sweep n v hv =>
      have e : (DiffGraph.sweep rules g n v).graph.withoutDerivs = g.withoutDerivs :=
        withoutDerivs_sweep g n v
      exact hg.of_skeleton (skeleton_congr e) fun m _ => value?_congr e m
  | clear => exact hg.withoutDerivs

/-- What clients can build is well-formed. -/
theorem wellFormed_after (conversion : Conversion D V E) (rules : Rules V E)
    (calls : List (Call D)) : (Graph.empty.after conversion rules calls).WellFormed :=
  after_induction conversion rules .empty (fun _ _ hg hc => hc.wellFormed hg) calls

end Graph

/-! ## A calculus of whole numbers -/

/-- Rules on whole numbers, where a quotient has to be whole as well. -/
def Rules.whole : Rules Int String where
  unary
    | .neg, x => .ok (-x)
    | .square, x => .ok (x * x)
    | op, _ => .error op.name
  binary
    | .add, x, y => .ok (x + y)
    | .mul, x, y | .dot, x, y => .ok (x * y)
    | .div, x, y => if y ∣ x then .ok (x / y) else .error "not whole"
  unaryPull
    | .neg, _, d => .ok (-d)
    | .square, x, d => .ok (2 * x * d)
    | op, _, _ => .error op.name
  binaryPull
    | .add, _, _, d => .ok (d, d)
    | .mul, x, y, d | .dot, x, y, d => .ok (y * d, x * d)
    | .div, _, _, _ => .error "not whole"
  seed _ := 1
  add x y := .ok (x + y)

/-- Whole numbers as data of their own; none is a vector. -/
def Conversion.whole : Conversion Int Int String where
  any := .ok
  scalar := .ok
  vector _ := .error "no vector"
  data := id

end DiffGraph
