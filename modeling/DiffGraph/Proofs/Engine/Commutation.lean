import DiffGraph.Proofs.Engine.Course
import DiffGraph.Proofs.Engine.History

/-!
# Evaluations commute

An evaluation adds values to those that a graph holds, and which ones it adds is a matter of the
expression tree alone: those at which the plain recursion over the tree arrives before it fails.
`Arrives` says which nodes these are, without a graph. Two evaluations therefore leave the same
graph in either order, even where both of them fail.
-/

namespace DiffGraph

variable {D V E : Type} {rules : Rules V E}

namespace Unfolding

/-- The node that a tree is unfolded from. -/
def node : Unfolding → Nat
  | .leaf n => n
  | .unary n _ _ => n
  | .binary n _ _ _ => n

/-- The plain recursion over some trees, from left to right, gives a value to a node before it
fails. -/
inductive Arrives (rules : Rules V E) (leaf : Nat → Except (Fault E) V) (m : Nat) :
    List Unfolding → Prop
  /-- The first tree has a value, and the node is its root. -/
  | root {t : Unfolding} {ts : List Unfolding} {v : V} :
      t.node = m → t.value rules leaf = .ok v → Arrives rules leaf m (t :: ts)
  /-- The node is met within the first tree, which may have no value itself. -/
  | inside {t : Unfolding} {ts : List Unfolding} :
      Arrives rules leaf m t.operands → Arrives rules leaf m (t :: ts)
  /-- The first tree has a value, and the node is met afterwards. -/
  | later {t : Unfolding} {ts : List Unfolding} {v : V} :
      t.value rules leaf = .ok v → Arrives rules leaf m ts → Arrives rules leaf m (t :: ts)

theorem leaves_of_operands (t : Unfolding) {n : Nat} (hn : n ∈ t.operands.flatMap leaves) :
    n ∈ t.leaves := by
  cases t with
  | leaf => cases hn
  | unary m op s => simpa [operands, leaves] using hn
  | binary m op l r => simpa [operands, leaves] using hn

section

variable {leaf leaf' : Nat → Except (Fault E) V} {m : Nat} {t : Unfolding} {ts : List Unfolding}

theorem Arrives.congr (ha : Arrives rules leaf m ts)
    (e : ∀ n ∈ ts.flatMap leaves, leaf n = leaf' n) : Arrives rules leaf' m ts := by
  induction ha with
  | root hm hv =>
      rw [value_congr rules fun n hn => e n (by simp [hn])] at hv
      exact .root hm hv
  | @inside t ts _ ih =>
      exact .inside (ih fun n hn => e n (by simp [t.leaves_of_operands hn]))
  | later hv _ ih =>
      rw [value_congr rules fun n hn => e n (by simp [hn])] at hv
      exact .later hv (ih fun n hn => e n (List.mem_append_right _ hn))

/-- Where the first tree has no value, nothing is met but what is within it. -/
theorem arrives_cons_of_error {e : Fault E} (ht : t.value rules leaf = .error e) :
    Arrives rules leaf m (t :: ts) ↔ Arrives rules leaf m t.operands := by
  constructor
  · intro ha
    cases ha with
    | root _ hv | later hv =>
        rw [ht] at hv
        cases hv
    | inside ha => exact ha
  · exact .inside

theorem arrives_cons_of_value {v : V} (ht : t.value rules leaf = .ok v) :
    Arrives rules leaf m (t :: ts) ↔
      Arrives rules leaf m t.operands ∨ t.node = m ∨ Arrives rules leaf m ts := by
  constructor
  · intro ha
    cases ha with
    | root hm => exact .inr (.inl hm)
    | inside ha => exact .inl ha
    | later _ ha => exact .inr (.inr ha)
  · rintro (ha | hm | ha)
    · exact .inside ha
    · exact .root hm ht
    · exact .later ht ha

end

end Unfolding

namespace Graph

open Unfolding (Arrives arrives_cons_of_error arrives_cons_of_value)

variable {g h : Graph V} {n m : Nat} {t : Unfolding} {ns : List Nat} {ts : List Unfolding}
  {ev : Evaluation V E}

theorem Unfolds.node_eq (ht : g.Unfolds n t) : t.node = n := by
  cases ht <;> rfl

theorem kind?_of_mem_flatMap_leaves (ht : List.Forall₂ g.Unfolds ns ts)
    (hm : m ∈ ts.flatMap Unfolding.leaves) :
    g.kind? m = some .const ∨ g.kind? m = some .var := by
  induction ht with
  | nil => cases hm
  | cons ht _ ih =>
      rcases List.mem_append.1 hm with hm | hm
      · exact ht.kind?_of_mem_leaves hm
      · exact ih hm

/-- Further values of operators do not change what the recursion arrives at. -/
theorem Enriches.arrives_iff (he : g.Enriches h) (ht : List.Forall₂ g.Unfolds ns ts) :
    Arrives rules h.operandValue m ts ↔ Arrives rules g.operandValue m ts := by
  have e : ∀ a ∈ ts.flatMap Unfolding.leaves,
      (h.operandValue a : Except (Fault E) V) = g.operandValue a := by
    intro a ha
    have hv := he.leaves a (by
      rcases kind?_of_mem_flatMap_leaves ht ha with hk | hk <;> rw [hk] <;> rfl)
    simp only [operandValue, hv]
  exact ⟨fun ha => ha.congr e, fun ha => ha.congr fun a hm => (e a hm).symm⟩

/-! ## What an evaluation adds -/

/-- At a node that has nothing to apply, the tree has no operands. -/
theorem Unfolds.operands_of_awaited_error (ht : g.Unfolds n t) {e : Fault E}
    (ha : g.awaited n = .error e) : t.operands = [] := by
  cases ht with
  | leaf => rfl
  | unary hk hi =>
      rw [awaited, hk, application_eq_unary_iff.2 ⟨hk, hi⟩] at ha
      cases ha
  | binary hk hi =>
      rw [awaited, hk, application_eq_binary_iff.2 ⟨hk, hi⟩] at ha
      cases ha

/-- Where the roots hold values, so do all the nodes below them. -/
theorem Coherent.exists_value?_of_arrives (hc : Coherent rules g) (hg : g.WellFormed)
    (ht : List.Forall₂ g.Unfolds ns ts) (hh : ∀ n ∈ ns, ∃ v, g.value? n = some v)
    (ha : Arrives rules g.operandValue m ts) : ∃ v, g.value? m = some v := by
  induction ha generalizing ns with
  | root hm _ =>
      cases ht with
      | cons ht _ =>
          rw [← hm, ht.node_eq]
          exact hh _ List.mem_cons_self
  | inside _ ih =>
      cases ht with
      | @cons n _ _ _ ht _ =>
          obtain ⟨v, hv⟩ := hh n List.mem_cons_self
          obtain ⟨app, happ⟩ := hg.exists_application (E := E) (lt_size_of_value? hv)
          exact ih (ht.operands happ) (operands_of_result happ (hc n v hv))
  | later _ _ ih =>
      cases ht with
      | cons _ hts => exact ih hts fun n hn => hh n (List.mem_cons_of_mem _ hn)

/-- After an evaluation, failed or not, a node holds a value if it did so before or if the plain
recursion arrives at it. -/
theorem Recalls.exists_value?_iff (hr : Recalls rules g ns ev) (hg : g.WellFormed)
    (hc : Coherent rules g) (ht : List.Forall₂ g.Unfolds ns ts) (m : Nat) :
    (∃ v, ev.graph.value? m = some v) ↔
      (∃ v, g.value? m = some v) ∨ Arrives rules g.operandValue m ts := by
  induction hr generalizing ts with
  | nil =>
      cases ht
      exact ⟨.inl, fun h => h.elim id nofun⟩
  | @held g n ns v ev hv _ ih =>
      cases ht with
      | @cons _ t _ ts ht hts =>
          have hin : Arrives rules g.operandValue m t.operands → ∃ v, g.value? m = some v :=
            fun ha => hc.exists_value?_of_arrives hg (.cons ht .nil)
              (fun k hk => ⟨v, by rw [List.mem_singleton.1 hk, hv]⟩) (.inside ha)
          have hroot : t.node = m → ∃ v, g.value? m = some v := by
            rw [ht.node_eq]
            rintro rfl
            exact ⟨v, hv⟩
          rw [ih hg hc hts, arrives_cons_of_value (hc.tree_value ht hv)]
          constructor
          · exact Or.imp_right fun ha => .inr (.inr ha)
          · rintro (hheld | ha | hm | ha)
            · exact .inl hheld
            · exact .inl (hin ha)
            · exact .inl (hroot hm)
            · exact .inr ha
  | fault hv ha =>
      cases ht with
      | cons ht hts =>
          rw [arrives_cons_of_error (ht.value_of_awaited_error hg hv ha),
            ht.operands_of_awaited_error ha]
          exact ⟨.inl, fun h => h.elim id nofun⟩
  | operand hv ha hr ih =>
      cases ht with
      | cons ht hts =>
          have hops := ht.operands (awaited_eq_ok_iff.1 ha).2
          have herr := Unfolding.value_of_firstFault (hr.outcome_eq hg hc hops).symm
          rw [ih hg hc hops, arrives_cons_of_error herr]
  | rule hv ha hr hres ih =>
      cases ht with
      | cons ht hts =>
          have herr := (hr.tree_result hg hc ha ht).trans hres
          rw [ih hg hc (ht.operands (awaited_eq_ok_iff.1 ha).2), arrives_cons_of_error herr]
  | @computed g h k n ns done later app v outcome hv ha hr hres _ ih₁ ih₂ =>
      cases ht with
      | @cons _ t _ ts ht hts =>
          have he := hr.enriches.withValue v hv (awaited_eq_ok_iff.1 ha).1
          have hn : n < h.size := by
            rw [size_congr hr.enriches.skeleton]
            exact lt_size_of_awaited ha
          have hkept : (∃ w, (h.withValue n (some v)).value? m = some w) ↔
              n = m ∨ ∃ w, h.value? m = some w := by
            rw [value?_withValue]
            by_cases hm : m = n
            · simp [hm, hn]
            · simp [hm, Ne.symm hm]
          have hts' : List.Forall₂ (h.withValue n (some v)).Unfolds ns ts :=
            hts.imp fun _ _ hu => hu.congr he.skeleton
          have hc' := hr.keep hg hv ha hres (hr.coherent hg hc)
          rw [ih₂ (he.wellFormed hg) hc' hts', he.arrives_iff hts, hkept,
            ih₁ hg hc (ht.operands (awaited_eq_ok_iff.1 ha).2),
            arrives_cons_of_value ((hr.tree_result hg hc ha ht).trans hres), ht.node_eq]
          simp only [or_assoc, or_left_comm]

/-! ## Two evaluations -/

theorem run_evalValue_of_size_le (rules : Rules V E) (hn : g.size ≤ n) :
    (Action.evalValue rules (.node n)).run g = ⟨.error (.foreignIndex (.node n)), g, []⟩ := by
  have hr : (g.resolve (.node n) : Except (Fault E) Nat) = .error (.foreignIndex (.node n)) := by
    have hlt : ¬ (n : Int) < g.size := by omega
    simp [resolve, check, Ref.node, hlt]
  rw [Action.run_evalValue, hr]

theorem coherent_evalValue (hg : g.WellFormed) (hc : Coherent rules g) (r : Ref) :
    ((Action.evalValue rules r).run g).graph.WellFormed ∧
      Coherent rules ((Action.evalValue rules r).run g).graph :=
  coherent_of_changes (changes_evalValue rules r g) hg hc

theorem exists_value?_evalValue_iff (hg : g.WellFormed) (hc : Coherent rules g) (hn : n < g.size)
    (ht : g.Unfolds n t) (m : Nat) :
    (∃ v, ((Action.evalValue rules (.node n)).run g).graph.value? m = some v) ↔
      (∃ v, g.value? m = some v) ∨ Arrives rules g.operandValue m [t] := by
  rw [(run_evalValue_eq_evaluate rules hg.ascending hn).1]
  exact (recalls_evaluate rules hg.ascending hn).exists_value?_iff hg hc (.cons ht .nil) m

/-- The nodes that hold a value after two evaluations. -/
theorem exists_value?_evalValue_evalValue_iff (hg : g.WellFormed) (hc : Coherent rules g)
    {a b : Nat} (ha : a < g.size) (hb : b < g.size) {s t : Unfolding} (hs : g.Unfolds a s)
    (ht : g.Unfolds b t) (m : Nat) :
    (∃ v, ((Action.evalValue rules (.node b)).run
        ((Action.evalValue rules (.node a)).run g).graph).graph.value? m = some v) ↔
      (∃ v, g.value? m = some v) ∨ Arrives rules g.operandValue m [s] ∨
        Arrives rules g.operandValue m [t] := by
  have he : g.Enriches ((Action.evalValue rules (.node a)).run g).graph :=
    enriches_evalValue hg ha
  obtain ⟨hg', hc'⟩ := coherent_evalValue hg hc (.node a)
  rw [exists_value?_evalValue_iff hg' hc' (by rwa [size_congr he.skeleton])
      (ht.congr he.skeleton), exists_value?_evalValue_iff hg hc ha hs,
    he.arrives_iff (.cons ht .nil), or_assoc]

/-- What a node holds is the value of its tree, so two graphs that come of one by adding values
agree wherever both hold one. -/
theorem Enriches.value?_eq {k : Graph V} (h₁ : g.Enriches h) (h₂ : g.Enriches k)
    (hg : g.WellFormed) (hc₁ : Coherent rules h) (hc₂ : Coherent rules k)
    (hiff : (∃ v, h.value? m = some v) ↔ ∃ v, k.value? m = some v) :
    h.value? m = k.value? m := by
  cases hv : h.value? m with
  | none =>
      cases hw : k.value? m with
      | none => rfl
      | some w =>
          obtain ⟨v, hv'⟩ := hiff.2 ⟨w, hw⟩
          rw [hv] at hv'
          cases hv'
  | some v =>
      obtain ⟨w, hw⟩ := hiff.1 ⟨v, hv⟩
      have hm : m < g.size := by
        rw [← size_congr h₁.skeleton]
        exact lt_size_of_value? hv
      obtain ⟨t, ht⟩ := hg.exists_unfolds hm
      have hvt := hc₁.tree_value (ht.congr h₁.skeleton) hv
      have hwt := hc₂.tree_value (ht.congr h₂.skeleton) hw
      rw [h₁.tree_value ht] at hvt
      rw [h₂.tree_value ht, hvt] at hwt
      rw [hw, Except.ok.inj hwt]

/-- The answer of an evaluation is the same after another one. -/
theorem outcome_evalValue_evalValue (hg : g.WellFormed) (hc : Coherent rules g) (a b : Nat) :
    ((Action.evalValue rules (.node b)).run
        ((Action.evalValue rules (.node a)).run g).graph).outcome =
      ((Action.evalValue rules (.node b)).run g).outcome := by
  rcases Nat.lt_or_ge a g.size with ha | ha
  · have he : g.Enriches ((Action.evalValue rules (.node a)).run g).graph :=
      enriches_evalValue hg ha
    obtain ⟨hg', hc'⟩ := coherent_evalValue hg hc (.node a)
    have hsize := size_congr he.skeleton
    rcases Nat.lt_or_ge b g.size with hb | hb
    · obtain ⟨t, ht⟩ := hg.exists_unfolds hb
      rw [outcome_evalValue hg' hc' (by rwa [hsize]) (ht.congr he.skeleton), he.tree_value ht,
        outcome_evalValue hg hc hb ht]
    · rw [run_evalValue_of_size_le rules hb, run_evalValue_of_size_le rules (by rwa [hsize])]
  · rw [run_evalValue_of_size_le rules ha]

theorem graph_evalValue_comm (hg : g.WellFormed) (hc : Coherent rules g) {a b : Nat}
    (ha : a < g.size) (hb : b < g.size) :
    ((Action.evalValue rules (.node b)).run
        ((Action.evalValue rules (.node a)).run g).graph).graph =
      ((Action.evalValue rules (.node a)).run
        ((Action.evalValue rules (.node b)).run g).graph).graph := by
  obtain ⟨s, hs⟩ := hg.exists_unfolds ha
  obtain ⟨t, ht⟩ := hg.exists_unfolds hb
  have hea : g.Enriches ((Action.evalValue rules (.node a)).run g).graph :=
    enriches_evalValue hg ha
  have heb : g.Enriches ((Action.evalValue rules (.node b)).run g).graph :=
    enriches_evalValue hg hb
  obtain ⟨hga, hca⟩ := coherent_evalValue hg hc (.node a)
  obtain ⟨hgb, hcb⟩ := coherent_evalValue hg hc (.node b)
  have heab : g.Enriches ((Action.evalValue rules (.node b)).run
      ((Action.evalValue rules (.node a)).run g).graph).graph :=
    hea.trans (enriches_evalValue hga (by rwa [size_congr hea.skeleton]))
  have heba : g.Enriches ((Action.evalValue rules (.node a)).run
      ((Action.evalValue rules (.node b)).run g).graph).graph :=
    heb.trans (enriches_evalValue hgb (by rwa [size_congr heb.skeleton]))
  refine eq_of_skeleton (heab.skeleton.trans heba.skeleton.symm) (fun m => ?_) fun m => ?_
  · refine heab.value?_eq heba hg (coherent_evalValue hga hca _).2
      (coherent_evalValue hgb hcb _).2 ?_
    rw [exists_value?_evalValue_evalValue_iff hg hc ha hb hs ht,
      exists_value?_evalValue_evalValue_iff hg hc hb ha ht hs]
    exact or_congr_right or_comm
  · rw [heab.deriv?, heba.deriv?]

end Graph

open DiffGraph.Graph

/-- After any session, failed calls included, two evaluations can be made in either order: each of
them has the same outcome, and the graphs that they leave are the same, with the values that were
computed before a failure. -/
theorem evalValue_comm (conversion : Conversion D V E) (rules : Rules V E) (calls : List (Call D))
    (a b : Nat) :
    let g := Graph.empty.after conversion rules calls
    let first := (Action.evalValue rules (.node a)).run g
    let first' := (Action.evalValue rules (.node b)).run g
    let second := (Action.evalValue rules (.node b)).run first.graph
    let second' := (Action.evalValue rules (.node a)).run first'.graph
    first.outcome = second'.outcome ∧ second.outcome = first'.outcome ∧
      second.graph = second'.graph := by
  intro g first first' second second'
  obtain ⟨hg, hc⟩ := coherent_after conversion rules calls
  refine ⟨(outcome_evalValue_evalValue hg hc b a).symm, outcome_evalValue_evalValue hg hc a b, ?_⟩
  rcases Nat.lt_or_ge a g.size with ha | ha
  · rcases Nat.lt_or_ge b g.size with hb | hb
    · exact graph_evalValue_comm hg hc ha hb
    · have hb' : first.graph.size ≤ b := by
        rwa [size_congr (enriches_evalValue hg ha : g.Enriches first.graph).skeleton]
      simp only [second, second', first', run_evalValue_of_size_le rules hb,
        run_evalValue_of_size_le rules hb', first]
  · have ha' : first'.graph.size ≤ a := by
      rcases Nat.lt_or_ge b g.size with hb | hb
      · rwa [size_congr (enriches_evalValue hg hb : g.Enriches first'.graph).skeleton]
      · simp only [first', run_evalValue_of_size_le rules hb]
        exact ha
    simp only [second, second', first, run_evalValue_of_size_le rules ha,
      run_evalValue_of_size_le rules ha', first']

/-- A sum fails at its second operand and a product at its first, and each keeps what it has
computed: the graph is the same whichever is evaluated first. -/
example :
    let g : Graph Int := Graph.empty.after .whole .whole
      [.constant .any 3, .unary .neg (.node 0), .emptyVariable "x",
        .binary .add (.node 1) (.node 2), .unary .square (.node 0),
        .binary .mul (.node 2) (.node 4)]
    let h := ((Action.evalValue Rules.whole (.node 5)).run
      ((Action.evalValue Rules.whole (.node 3)).run g).graph).graph
    h = ((Action.evalValue Rules.whole (.node 3)).run
      ((Action.evalValue Rules.whole (.node 5)).run g).graph).graph ∧
      h.value? 1 = some (-3) ∧ h.value? 4 = none := by
  decide +kernel

end DiffGraph
