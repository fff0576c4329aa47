import DiffGraph.Proofs.Engine.Coherence

/-!
# Evaluation does not depend on history

Whatever was evaluated, assigned or refused before, the evaluation of a node answers with the value
of the expression tree that the node unfolds to, under the values that the leaves hold now, or with
the first failure of the plain recursion over that tree.
-/

namespace DiffGraph

variable {D V E : Type} {rules : Rules V E}

namespace Unfolding

/-- The trees of the operands, left one first. -/
def operands : Unfolding → List Unfolding
  | .leaf _ => []
  | .unary _ _ t => [t]
  | .binary _ _ l r => [l, r]

/-- The first failure among the values of some trees. -/
def firstFault (rules : Rules V E) (leaf : Nat → Except (Fault E) V) :
    List Unfolding → Except (Fault E) Unit
  | [] => .ok ()
  | t :: ts => do
    let _ ← t.value rules leaf
    firstFault rules leaf ts

/-- A failure of an operand is the failure of the tree. -/
theorem value_of_firstFault {leaf : Nat → Except (Fault E) V} {t : Unfolding} {e : Fault E}
    (h : firstFault rules leaf t.operands = .error e) : t.value rules leaf = .error e := by
  cases t with
  | leaf n => cases h
  | unary n op t =>
      simp only [operands, firstFault, value] at h ⊢
      cases ht : t.value rules leaf with
      | error e' => simpa [ht] using h
      | ok x => simp [ht] at h
  | binary n op l r =>
      simp only [operands, firstFault, value] at h ⊢
      cases hl : l.value rules leaf with
      | error e' => simpa [hl] using h
      | ok x =>
          cases hr : r.value rules leaf with
          | error e' => simpa [hl, hr] using h
          | ok y => simp [hl, hr] at h

end Unfolding

namespace Graph

variable {g h : Graph V} {n : Nat} {t : Unfolding}

/-! ## Trees in a coherent graph -/

theorem Unfolds.operands (ht : g.Unfolds n t) {app : Application}
    (ha : (g.application n : Except (Fault E) Application) = .ok app) :
    List.Forall₂ g.Unfolds app.operands t.operands := by
  cases app with
  | leaf =>
      rw [ht.eq_leaf ha]
      exact .nil
  | unary op a =>
      obtain ⟨s, rfl, hs⟩ := ht.eq_unary ha
      exact .cons hs .nil
  | binary op l r =>
      obtain ⟨s, u, rfl, hs, hu⟩ := ht.eq_binary ha
      exact .cons hs (.cons hu .nil)

/-- Further values of operators do not change the value of a tree. -/
theorem Enriches.tree_value (he : g.Enriches h) (ht : g.Unfolds n t) :
    t.value rules h.operandValue = t.value rules g.operandValue := by
  refine Unfolding.value_congr rules fun m hm => ?_
  have hv := he.leaves m (by rcases ht.kind?_of_mem_leaves hm with hk | hk <;> rw [hk] <;> rfl)
  simp only [operandValue, hv]

theorem Enriches.firstFault (he : g.Enriches h) {ns : List Nat} {ts : List Unfolding}
    (ht : List.Forall₂ g.Unfolds ns ts) :
    Unfolding.firstFault rules h.operandValue ts =
      Unfolding.firstFault rules g.operandValue ts := by
  induction ht with
  | nil => rfl
  | cons ht _ ih => rw [Unfolding.firstFault, Unfolding.firstFault, he.tree_value ht, ih]

theorem Coherent.tree_value (hc : Coherent rules g) (ht : g.Unfolds n t) {v : V}
    (hv : g.value? n = some v) : t.value rules g.operandValue = .ok v := by
  induction ht generalizing v with
  | leaf => exact operandValue_eq_ok_iff.2 hv
  | unary hk hi _ ih =>
      obtain ⟨x, hx, hval⟩ := hc.unary hv (application_eq_unary_iff.2 ⟨hk, hi⟩)
      rw [Unfolding.value, ih hx]
      exact Except.mapError_eq_ok_iff.2 hval
  | binary hk hi _ _ ihl ihr =>
      obtain ⟨x, y, hx, hy, hval⟩ := hc.binary hv (application_eq_binary_iff.2 ⟨hk, hi⟩)
      rw [Unfolding.value, ihl hx, ihr hy]
      exact Except.mapError_eq_ok_iff.2 hval

/-- An operator whose operands are known is recomputed to the value of its tree. -/
theorem Coherent.tree_result (hc : Coherent rules g) (ht : g.Unfolds n t) {app : Application}
    (ha : (g.application n : Except (Fault E) Application) = .ok app)
    (ho : ∀ a ∈ app.operands, ∃ v, g.value? a = some v) :
    t.value rules g.operandValue = g.result rules n := by
  cases app with
  | leaf =>
      rw [ht.eq_leaf ha, result_leaf ha]
      rfl
  | unary op a =>
      obtain ⟨s, rfl, hs⟩ := ht.eq_unary ha
      obtain ⟨x, hx⟩ := ho a List.mem_cons_self
      rw [result_unary ha, Unfolding.value, hc.tree_value hs hx, operandValue_eq_ok_iff.2 hx]
  | binary op l r =>
      obtain ⟨s, u, rfl, hs, hu⟩ := ht.eq_binary ha
      obtain ⟨x, hx⟩ := ho l List.mem_cons_self
      obtain ⟨y, hy⟩ := ho r (List.mem_cons_of_mem l List.mem_cons_self)
      rw [result_binary ha, Unfolding.value, hc.tree_value hs hx, hc.tree_value hu hy,
        operandValue_eq_ok_iff.2 hx, operandValue_eq_ok_iff.2 hy]

/-- Where a node has nothing to apply, its tree has no value for the same reason. -/
theorem Unfolds.value_of_awaited_error (ht : g.Unfolds n t) (hg : g.WellFormed)
    (hv : g.value? n = none) {e : Fault E} (ha : g.awaited n = .error e) :
    t.value rules g.operandValue = .error e := by
  cases ht with
  | leaf hk =>
      rcases hk with hk | hk
      · have hs := hg.constant n hk
        rw [hv] at hs
        cases hs
      · rw [awaited, hk, Except.error.injEq] at ha
        rw [Unfolding.value, operandValue, hv, ← ha]
        rfl
  | unary hk hi =>
      rw [awaited, hk, application_eq_unary_iff.2 ⟨hk, hi⟩] at ha
      cases ha
  | binary hk hi =>
      rw [awaited, hk, application_eq_binary_iff.2 ⟨hk, hi⟩] at ha
      cases ha

/-! ## Evaluation -/

theorem Recalls.tree_result {done : List Nat} {app : Application}
    (hr : Recalls rules g app.operands ⟨.ok (), h, done⟩) (hg : g.WellFormed)
    (hc : Coherent rules g) (ha : (g.awaited n : Except (Fault E) Application) = .ok app)
    (ht : g.Unfolds n t) : t.value rules g.operandValue = h.result rules n := by
  have e := hr.enriches.skeleton
  have ha' := (application_congr e n).trans (awaited_eq_ok_iff.1 ha).2
  rw [← hr.enriches.tree_value ht]
  exact (hr.coherent hg hc).tree_result (ht.congr e) ha' fun a hm => hr.exists_value? rfl hm

/-- The memoised recursion fails where the plain one does, and first with the same fault. -/
theorem Recalls.outcome_eq {ns : List Nat} {ev : Evaluation V E} (hr : Recalls rules g ns ev)
    (hg : g.WellFormed) (hc : Coherent rules g) {ts : List Unfolding}
    (ht : List.Forall₂ g.Unfolds ns ts) :
    ev.outcome = Unfolding.firstFault rules g.operandValue ts := by
  induction hr generalizing ts with
  | nil =>
      cases ht
      rfl
  | held hv _ ih =>
      cases ht with
      | cons ht hts =>
          rw [ih hg hc hts, Unfolding.firstFault, hc.tree_value ht hv]
          rfl
  | fault hv ha =>
      cases ht with
      | cons ht hts =>
          rw [Unfolding.firstFault, ht.value_of_awaited_error hg hv ha]
          rfl
  | operand hv ha _ ih =>
      cases ht with
      | cons ht hts =>
          have h := ih hg hc (ht.operands (awaited_eq_ok_iff.1 ha).2)
          rw [Unfolding.firstFault, Unfolding.value_of_firstFault h.symm]
          rfl
  | rule hv ha hr hres ih =>
      cases ht with
      | cons ht hts =>
          have h := hr.tree_result hg hc ha ht
          rw [Unfolding.firstFault, h, hres]
          rfl
  | @computed g h k n ns done later app v outcome hv ha hr hres _ ih₁ ih₂ =>
      cases ht with
      | @cons _ t _ ts ht hts =>
          have hn := hr.tree_result hg hc ha ht
          have he := hr.enriches.withValue v hv (awaited_eq_ok_iff.1 ha).1
          have hc' := hr.keep hg hv ha hres (hr.coherent hg hc)
          have hts' : List.Forall₂ (h.withValue n (some v)).Unfolds ns ts :=
            hts.imp fun _ _ hu => hu.congr he.skeleton
          rw [ih₂ (he.wellFormed hg) hc' hts', Unfolding.firstFault, hn, hres]
          exact he.firstFault hts

theorem enriches_evalValue (hg : g.WellFormed) (hn : n < g.size) :
    g.Enriches ((Action.evalValue rules (.node n)).run g).graph := by
  cases hv : g.value? n with
  | some v =>
      rw [Action.run_evalValue, resolve_node hn]
      simp only [hv]
      exact .refl g
  | none =>
      rw [Action.run_evalValue_node g rules hn hv]
      exact (recalls_evaluate rules hg.ascending hn).enriches

/-- The evaluation of a node answers with the value of its tree. -/
theorem outcome_evalValue (hg : g.WellFormed) (hc : Coherent rules g) (hn : n < g.size)
    (ht : g.Unfolds n t) :
    ((Action.evalValue rules (.node n)).run g).outcome = t.value rules g.operandValue := by
  cases hv : g.value? n with
  | some v =>
      rw [Action.run_evalValue, resolve_node hn]
      simp only [hv]
      exact (hc.tree_value ht hv).symm
  | none =>
      have hr := recalls_evaluate rules hg.ascending hn
      have ho := hr.outcome_eq hg hc (.cons ht .nil)
      rw [Action.run_evalValue_node g rules hn hv]
      cases htv : t.value rules g.operandValue with
      | error e =>
          rw [ho, Unfolding.firstFault, htv]
          rfl
      | ok w =>
          have hok : (evaluate rules g n).outcome = .ok () := by
            rw [ho, Unfolding.firstFault, htv]
            rfl
          obtain ⟨v, hv'⟩ := hr.exists_value? hok List.mem_cons_self
          have ht' := ht.congr hr.enriches.skeleton
          have hvw := (hr.coherent hg hc).tree_value ht' hv'
          rw [hr.enriches.tree_value ht, htv] at hvw
          rw [hok, Except.ok_bind, hv', ← Except.ok.inj hvw]
          rfl

end Graph

open DiffGraph.Graph

/-- After any session, failed calls included, the values held are current, and the evaluation of a
node answers with the value or the first failure of the one tree that the node unfolds to. -/
theorem evalValue_eq_tree_value (conversion : Conversion D V E) (rules : Rules V E)
    (calls : List (Call D)) :
    let g := Graph.empty.after conversion rules calls
    (∀ n v, g.value? n = some v →
      (∀ op a, (g.application n : Except (Fault E) Application) = .ok (.unary op a) →
        ∃ x, g.value? a = some x ∧ rules.unary op x = .ok v) ∧
      ∀ op l r, (g.application n : Except (Fault E) Application) = .ok (.binary op l r) →
        ∃ x y, g.value? l = some x ∧ g.value? r = some y ∧ rules.binary op x y = .ok v) ∧
    ∀ n < g.size, ∃ t, (∀ s, g.Unfolds n s ↔ s = t) ∧
      ((Action.evalValue rules (.node n)).run g).outcome = t.value rules g.operandValue := by
  intro g
  obtain ⟨hg, hc⟩ := coherent_after conversion rules calls
  refine ⟨fun n v hv => ⟨?_, ?_⟩, fun n hn => ?_⟩
  · intro op a ha
    exact hc.unary hv ha
  · intro op l r ha
    exact hc.binary hv ha
  · obtain ⟨t, ht⟩ := hg.exists_unfolds hn
    refine ⟨t, fun s => ⟨fun hs => hs.unique ht, fun hs => hs ▸ ht⟩, ?_⟩
    exact outcome_evalValue hg hc hn ht

/-- A product failed at a variable without a value, after the opposite on its left was computed.
Then the variable below the opposite was assigned once more. The opposite is that of the new value,
and the product fails at the same variable. -/
theorem evalValue_of_unset :
    let g := Graph.empty.after .whole .whole
      [.emptyVariable "x", .setValue (.node 0) 3, .unary .neg (.node 0), .emptyVariable "y",
        .binary .mul (.node 1) (.node 2), .evalValue (.node 3), .setValue (.node 0) 5]
    ((Action.evalValue Rules.whole (.node 1)).run g).outcome = .ok (-5) ∧
      ((Action.evalValue Rules.whole (.node 3)).run g).outcome =
        .error (.valueUninitialized (.node 2)) := by
  intro g
  have hfirst : Graph.empty.after .whole .whole [.emptyVariable "x", .setValue (.node 0) 3] =
      ⟨#[⟨.var, some 3, none, [], []⟩], [("x", 0)], #[]⟩ := by
    rw [after_cons, after_setValue .whole .whole rfl rfl, invalidate_of_no_consumers rfl]
    rfl
  have hfailed : Graph.after .whole .whole ⟨#[⟨.var, some 3, none, [], []⟩], [("x", 0)], #[]⟩
      [.unary .neg (.node 0), .emptyVariable "y", .binary .mul (.node 1) (.node 2),
        .evalValue (.node 3)] =
      ⟨#[⟨.var, some 3, none, [], [1]⟩, ⟨.unary .neg, some (-3), none, [0], [3]⟩,
        ⟨.var, none, none, [], [3]⟩, ⟨.binary .mul, none, none, [1, 2], []⟩],
        [("x", 0), ("y", 2)], #[(0, 1), (1, 3), (2, 3)]⟩ := by
    decide +kernel
  have hdropped : g = ⟨#[⟨.var, some 5, none, [], [1]⟩, ⟨.unary .neg, none, none, [0], [3]⟩,
      ⟨.var, none, none, [], [3]⟩, ⟨.binary .mul, none, none, [1, 2], []⟩],
      [("x", 0), ("y", 2)], #[(0, 1), (1, 3), (2, 3)]⟩ := by
    change Graph.empty.after .whole .whole ([.emptyVariable "x", .setValue (.node 0) 3] ++
      ([.unary .neg (.node 0), .emptyVariable "y", .binary .mul (.node 1) (.node 2),
        .evalValue (.node 3)] ++ [.setValue (.node 0) 5])) = _
    rw [after_append, after_append, hfirst, hfailed, after_setValue .whole .whole rfl rfl]
    -- The opposite of the first value, which the failed evaluation left, is dropped.
    simp [invalidate, invalidateStack, withValue, Graph.modify, consumersOf, place, size,
      dropComputed, Graph.check, Kind.isOperator]
  have houtcome : ∀ n t, n < g.size → g.Unfolds n t →
      ((Action.evalValue Rules.whole (.node n)).run g).outcome =
        t.value Rules.whole g.operandValue := by
    intro n t hn ht
    obtain ⟨s, hs, h⟩ := (evalValue_eq_tree_value .whole .whole
      [.emptyVariable "x", .setValue (.node 0) 3, .unary .neg (.node 0), .emptyVariable "y",
        .binary .mul (.node 1) (.node 2), .evalValue (.node 3), .setValue (.node 0) 5]).2 n hn
    obtain rfl := (hs t).1 ht
    exact h
  have hopposite : g.Unfolds 1 (.unary 1 .neg (.leaf 0)) := by
    rw [hdropped]
    exact .unary rfl rfl (.leaf (.inr rfl))
  have hproduct : g.Unfolds 3 (.binary 3 .mul (.unary 1 .neg (.leaf 0)) (.leaf 2)) := by
    rw [hdropped] at hopposite ⊢
    exact .binary rfl rfl hopposite (.leaf (.inr rfl))
  rw [hdropped] at houtcome hopposite hproduct ⊢
  exact ⟨houtcome 1 _ (by decide) hopposite, houtcome 3 _ (by decide) hproduct⟩

end DiffGraph
