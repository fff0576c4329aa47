import DiffGraph.Proofs.Engine.Commutation
import DiffGraph.Proofs.Engine.PathSum
import DiffGraph.Proofs.Engine.Timeline

/-!
# Twin nodes

Nodes of two graphs are twins if the same operators are applied there to leaves with the same
values, whatever the indices and the kinds of the leaves are and however the nodes are shared. A
leaf may be marked in each graph; then a marked leaf has only the other marked leaf as its twin.
Twins have the same value. A reverse pass visits them in the same order with the same gradients,
and so it brings the same gradients to the marked leaves, one after the other.
-/

namespace DiffGraph.Graph

variable {V E : Type} {rules : Rules V E} {g g' h h' k : Graph V} {n m : Nat} {p q : Option Nat}

/-- A leaf that holds a value. -/
structure IsLeaf (g : Graph V) (n : Nat) (v : V) : Prop where
  kind : g.kind? n = some .const ∨ g.kind? n = some .var
  value : g.value? n = some v

theorem IsLeaf.lt_size {v : V} (hn : g.IsLeaf n v) : n < g.size := lt_size_of_value? hn.value

theorem IsLeaf.ne_unary {v : V} (hn : g.IsLeaf n v) {op : Unary} :
    g.kind? n ≠ some (.unary op) := by
  rcases hn.kind with hk | hk <;> simp [hk]

theorem IsLeaf.ne_binary {v : V} (hn : g.IsLeaf n v) {op : Binary} :
    g.kind? n ≠ some (.binary op) := by
  rcases hn.kind with hk | hk <;> simp [hk]

/-! ## Graphs that continue another one -/

/-- A graph is another one with further nodes, and the leaves have kept their values. -/
structure Continues (g h : Graph V) : Prop extends g.Extends h where
  leaf : ∀ n v, g.IsLeaf n v → h.value? n = some v

namespace Continues

@[refl] theorem refl (g : Graph V) : g.Continues g := ⟨.refl g, fun _ _ hn => hn.value⟩

theorem isLeaf (hc : g.Continues h) {v : V} (hn : g.IsLeaf n v) : h.IsLeaf n v where
  kind := by rw [hc.kind? n hn.lt_size]; exact hn.kind
  value := hc.leaf n v hn

@[trans] theorem trans (h₁ : g.Continues h) (h₂ : h.Continues k) : g.Continues k where
  toExtends := h₁.toExtends.trans h₂.toExtends
  leaf n v hn := h₂.leaf n v (h₁.isLeaf hn)

theorem append_fresh (g : Graph V) {kind : Kind} (hk : kind.isOperator = false) (v : Option V) :
    g.Continues (g.append (.fresh kind v)) where
  toExtends := (Grows.append_leaf g hk v).toExtends
  leaf n w hn := by rw [value?_append, if_neg (Nat.ne_of_lt hn.lt_size), hn.value]

theorem appendOperator (g : Graph V) (kind : Kind) (operands : List Nat) :
    g.Continues (g.appendOperator kind operands) where
  toExtends := (Grows.appendOperator g kind operands).toExtends
  leaf n v hn := by rw [value?_appendOperator, hn.value]

theorem bindName (g : Graph V) (s : String) (n : Nat) : g.Continues (g.bindName s n) :=
  ⟨(Grows.bindName g s n).toExtends, fun _ _ hm => hm.value⟩

theorem of_enriches (he : g.Enriches h) : g.Continues h where
  toExtends := .of_skeleton he.skeleton
  leaf n v hn := he.keeps n v hn.value

end Continues

theorem isLeaf_append (g : Graph V) {kind : Kind} (hk : kind = .const ∨ kind = .var) (v : V) :
    (g.append (.fresh kind (some v))).IsLeaf g.size v where
  kind := by
    rw [kind?_append, if_pos rfl]
    exact hk.imp (congrArg some) (congrArg some)
  value := by
    rw [value?_append, if_pos rfl]
    rfl

/-! ## Twins -/

/-- The nodes of two graphs that stand for the same tree of operators over the same values. -/
inductive Twins (g h : Graph V) (p q : Option Nat) : Nat → Nat → Prop
  /-- A marked leaf is the twin of a marked leaf only. -/
  | leaf {n m : Nat} {v : V} : g.IsLeaf n v → h.IsLeaf m v → (some n = p ↔ some m = q) →
      Twins g h p q n m
  | unary {n m a b : Nat} {op : Unary} :
      g.kind? n = some (.unary op) → g.inputsOf n = [a] →
      h.kind? m = some (.unary op) → h.inputsOf m = [b] → Twins g h p q a b → Twins g h p q n m
  | binary {n m l l' r r' : Nat} {op : Binary} :
      g.kind? n = some (.binary op) → g.inputsOf n = [l, r] →
      h.kind? m = some (.binary op) → h.inputsOf m = [l', r'] →
      Twins g h p q l l' → Twins g h p q r r' → Twins g h p q n m

namespace Twins

theorem continues (ht : Twins g h p q n m) (hg : g.Continues g') (hh : h.Continues h') :
    Twins g' h' p q n m := by
  induction ht with
  | leaf hn hm hmark => exact .leaf (hg.isLeaf hn) (hh.isLeaf hm) hmark
  | unary hn hni hm hmi _ ih =>
      have hn' := lt_size_of_kind? hn
      have hm' := lt_size_of_kind? hm
      exact .unary ((hg.kind? _ hn').trans hn) ((hg.inputsOf _ hn').trans hni)
        ((hh.kind? _ hm').trans hm) ((hh.inputsOf _ hm').trans hmi) ih
  | binary hn hni hm hmi _ _ ihl ihr =>
      have hn' := lt_size_of_kind? hn
      have hm' := lt_size_of_kind? hm
      exact .binary ((hg.kind? _ hn').trans hn) ((hg.inputsOf _ hn').trans hni)
        ((hh.kind? _ hm').trans hm) ((hh.inputsOf _ hm').trans hmi) ihl ihr

/-- The trees that twins unfold to have the same value. -/
theorem unfolds (ht : Twins g h p q n m) (rules : Rules V E) :
    ∃ s t, g.Unfolds n s ∧ h.Unfolds m t ∧
      s.value rules g.operandValue = t.value rules h.operandValue := by
  induction ht with
  | @leaf n m v hn hm _ =>
      refine ⟨.leaf n, .leaf m, .leaf hn.kind, .leaf hm.kind, ?_⟩
      rw [Unfolding.value, Unfolding.value, operandValue_eq_ok_iff.2 hn.value,
        operandValue_eq_ok_iff.2 hm.value]
  | unary hn hni hm hmi _ ih =>
      obtain ⟨s, t, hs, ht, hst⟩ := ih
      refine ⟨_, _, .unary hn hni hs, .unary hm hmi ht, ?_⟩
      rw [Unfolding.value, Unfolding.value, hst]
  | binary hn hni hm hmi _ _ ihl ihr =>
      obtain ⟨s, t, hs, ht, hst⟩ := ihl
      obtain ⟨s', t', hs', ht', hst'⟩ := ihr
      refine ⟨_, _, .binary hn hni hs hs', .binary hm hmi ht ht', ?_⟩
      rw [Unfolding.value, Unfolding.value, hst, hst']

theorem outcome_evalValue (ht : Twins g h p q n m) (hg : g.WellFormed) (hh : h.WellFormed)
    (hcg : Coherent rules g) (hch : Coherent rules h) (hn : n < g.size) (hm : m < h.size) :
    ((Action.evalValue rules (.node n)).run g).outcome =
      ((Action.evalValue rules (.node m)).run h).outcome := by
  obtain ⟨s, t, hs, ht, hst⟩ := ht.unfolds rules
  rw [Graph.outcome_evalValue hg hcg hn hs, Graph.outcome_evalValue hh hch hm ht, hst]

theorem value_eq (ht : Twins g h p q n m) (hcg : Coherent rules g) (hch : Coherent rules h)
    {v w : V} (hv : g.value? n = some v) (hw : h.value? m = some w) : v = w := by
  obtain ⟨s, t, hs, ht, hst⟩ := ht.unfolds rules
  rw [hcg.tree_value hs hv, hch.tree_value ht hw] at hst
  exact Except.ok.inj hst

/-- Without a marked leaf on one side none is reached on the other. -/
theorem not_reaches {a : Nat} {v : V} (ht : Twins g h p q n m) (hp : p = some a) (hq : q = none)
    (hg : g.WellFormed) (ha : g.IsLeaf a v) : ¬ g.Reaches n a := by
  induction ht with
  | @leaf n m w hn hm hmark =>
      have hi := hg.inputsOf_of_leaf (E := Empty) (application_eq_leaf_iff.2 hn.kind)
      rw [reaches_head_iff, hi]
      rintro (rfl | ⟨b, hb, -⟩)
      · have hmarked : some m = q := hmark.1 hp.symm
        rw [hq] at hmarked
        cases hmarked
      · cases hb
  | unary hn hni hm hmi _ ih =>
      rw [reaches_head_iff, hni]
      rintro (rfl | ⟨b, hb, hr⟩)
      · exact ha.ne_unary hn
      · rw [List.mem_singleton.1 hb] at hr
        exact ih hr
  | binary hn hni hm hmi _ _ ihl ihr =>
      rw [reaches_head_iff, hni]
      rintro (rfl | ⟨b, hb, hr⟩)
      · exact ha.ne_binary hn
      · simp only [List.mem_cons, List.not_mem_nil, or_false] at hb
        rcases hb with rfl | rfl
        · exact ihl hr
        · exact ihr hr

end Twins

/-! ## Passes from twins -/

section Visits

variable {d : V} {vs ws vs' ws' : List (Visit V)}

theorem Visits.eq_leaf (hv : Visits rules g n d vs)
    (hn : (g.application n : Except (Fault E) Application) = .ok .leaf) :
    vs = [⟨[], n, d⟩] := by
  cases hv with
  | leaf => rfl
  | unary ha | binary ha =>
      rw [hn] at ha
      cases ha

theorem Visits.eq_unary (hv : Visits rules g n d vs) {op : Unary} {a : Nat}
    (hn : (g.application n : Except (Fault E) Application) = .ok (.unary op a)) :
    ∃ x da us, g.value? a = some x ∧ rules.unaryPull op x d = .ok da ∧
      Visits rules g a da us ∧ vs = ⟨[], n, d⟩ :: us.map (Visit.below 0) := by
  cases hv with
  | leaf ha | binary ha =>
      rw [hn] at ha
      cases ha
  | unary ha hx hpull hv =>
      rw [hn] at ha
      cases ha
      exact ⟨_, _, _, hx, hpull, hv, rfl⟩

theorem Visits.eq_binary (hv : Visits rules g n d vs) {op : Binary} {l r : Nat}
    (hn : (g.application n : Except (Fault E) Application) = .ok (.binary op l r)) :
    ∃ x y dl dr us us', g.value? l = some x ∧ g.value? r = some y ∧
      rules.binaryPull op x y d = .ok (dl, dr) ∧ Visits rules g l dl us ∧
        Visits rules g r dr us' ∧
          vs = ⟨[], n, d⟩ :: (us.map (Visit.below 0) ++ us'.map (Visit.below 1)) := by
  cases hv with
  | leaf ha | unary ha =>
      rw [hn] at ha
      cases ha
  | binary ha hx hy hpull hv hw =>
      rw [hn] at ha
      cases ha
      exact ⟨_, _, _, _, _, _, hx, hy, hpull, hv, hw, rfl⟩

/-- The marked leaves get the same gradients, one after the other. -/
def Alike (g h : Graph V) (p q : Option Nat) (vs ws : List (Visit V)) : Prop :=
  ∀ a b v w, p = some a → q = some b → g.IsLeaf a v → h.IsLeaf b w →
    arrivals vs a = arrivals ws b

namespace Alike

theorem leaf (hmark : some n = p ↔ some m = q) (d : V) :
    Alike g h p q [⟨[], n, d⟩] [⟨[], m, d⟩] := by
  intro a b v w ha hb _ _
  rw [ha, hb, Option.some.injEq, Option.some.injEq] at hmark
  simp only [arrivals, List.filter_cons, List.filter_nil, hmark]
  split <;> rfl

theorem below (hs : Alike g h p q vs ws) (i : Nat) :
    Alike g h p q (vs.map (Visit.below i)) (ws.map (Visit.below i)) := by
  intro a b v w ha hb hv hw
  rw [arrivals_map_below, arrivals_map_below, hs a b v w ha hb hv hw]

theorem append (hs : Alike g h p q vs ws) (hs' : Alike g h p q vs' ws') :
    Alike g h p q (vs ++ vs') (ws ++ ws') := by
  intro a b v w ha hb hv hw
  rw [arrivals_append, arrivals_append, hs a b v w ha hb hv hw, hs' a b v w ha hb hv hw]

/-- Operators are not marked. -/
theorem operator (hs : Alike g h p q vs ws) (hn : ∀ v, ¬ g.IsLeaf n v) (hm : ∀ v, ¬ h.IsLeaf m v)
    (d : V) : Alike g h p q (⟨[], n, d⟩ :: vs) (⟨[], m, d⟩ :: ws) := by
  intro a b v w ha hb hv hw
  have hna : n ≠ a := fun e => hn v (e ▸ hv)
  have hmb : m ≠ b := fun e => hm w (e ▸ hw)
  rw [arrivals_cons_ne hna, arrivals_cons_ne hmb, hs a b v w ha hb hv hw]

end Alike

/-- Wherever a pass goes in one graph it goes in the other, and the marked leaves get the same. -/
theorem Twins.visits (ht : Twins g h p q n m) (hcg : Coherent rules g) (hch : Coherent rules h)
    (hv : Visits rules g n d vs) {y : V} (hy : h.value? m = some y) :
    ∃ ws, Visits rules h m d ws ∧ Alike g h p q vs ws := by
  induction ht generalizing d vs y with
  | leaf hn hm hmark =>
      rw [hv.eq_leaf (application_eq_leaf_iff.2 hn.kind)]
      exact ⟨_, .leaf (application_eq_leaf_iff.2 hm.kind), .leaf hmark d⟩
  | unary hn hni hm hmi ht ih =>
      have hma := (application_eq_unary_iff (E := E)).2 ⟨hm, hmi⟩
      obtain ⟨x, hx, -⟩ := hch.unary hy hma
      obtain ⟨x', da, us, hx', hpull, hus, rfl⟩ :=
        hv.eq_unary (application_eq_unary_iff.2 ⟨hn, hni⟩)
      obtain rfl := ht.value_eq hcg hch hx' hx
      obtain ⟨ws, hws, hs⟩ := ih hus hx
      exact ⟨_, .unary hma hx hpull hws,
        (hs.below 0).operator (fun v hl => hl.ne_unary hn) (fun v hl => hl.ne_unary hm) d⟩
  | binary hn hni hm hmi htl htr ihl ihr =>
      have hma := (application_eq_binary_iff (E := E)).2 ⟨hm, hmi⟩
      obtain ⟨x, y, hx, hy, -⟩ := hch.binary hy hma
      obtain ⟨x', y', dl, dr, us, us', hx', hy', hpull, hus, hus', rfl⟩ :=
        hv.eq_binary (application_eq_binary_iff.2 ⟨hn, hni⟩)
      obtain rfl := htl.value_eq hcg hch hx' hx
      obtain rfl := htr.value_eq hcg hch hy' hy
      obtain ⟨ws, hws, hs⟩ := ihl hus hx
      obtain ⟨ws', hws', hs'⟩ := ihr hus' hy
      exact ⟨_, .binary hma hx hy hpull hws hws', ((hs.below 0).append (hs'.below 1)).operator
        (fun v hl => hl.ne_binary hn) (fun v hl => hl.ne_binary hm) d⟩

/-- What a node gets is a matter of what arrives there, in this order. -/
theorem deriv?_eq_of_arrivals {a b : Nat} (hg : g.accumulate rules vs = .ok g')
    (hh : h.accumulate rules ws = .ok h') (hvs : ∀ v ∈ vs, v.node < g.size)
    (hws : ∀ w ∈ ws, w.node < h.size) (ha : g.deriv? a = none) (hb : h.deriv? b = none)
    (hsame : arrivals vs a = arrivals ws b) : g'.deriv? a = h'.deriv? b := by
  rcases accumulate_none hg hvs ha with ⟨hnil, hda⟩ | ⟨c, cs, total, hcs, hfold, hda⟩
  · rcases accumulate_none hh hws hb with ⟨-, hdb⟩ | ⟨c, cs, total, hcs, -, -⟩
    · rw [hda, hdb]
    · rw [← hsame, hnil] at hcs
      cases hcs
  · rcases accumulate_none hh hws hb with ⟨hnil, -⟩ | ⟨c', cs', total', hcs', hfold', hdb⟩
    · rw [← hsame, hcs] at hnil
      cases hnil
    · rw [← hsame, hcs, List.cons.injEq] at hcs'
      rw [← hcs'.1, ← hcs'.2, hfold, Except.ok.injEq] at hfold'
      rw [hda, hdb, hfold']

end Visits

end DiffGraph.Graph
