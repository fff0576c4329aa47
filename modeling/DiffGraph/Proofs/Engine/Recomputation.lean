import DiffGraph.Proofs.Engine.Timeline
import Mathlib

/-!
# Operators are recomputed once per assignment

The value of one operator is followed along a timeline. It is there or it is not: an application of
the operator's own rule brings it, and is possible only where it is not; the assignment of a
variable that the operator depends on takes it away; nothing else touches it. `Watched` is this
two-state machine. Every call runs it (`Passage.watched`), hence every session does
(`watched_timeline`), and how often the rule is applied is read off its runs.
-/

namespace DiffGraph

variable {D V E : Type}

/-- The value of the operator `i`, before and after some moments, if the nodes of which `A` holds
are those that it depends on. -/
inductive Watched (A : Nat → Prop) (i : Nat) : Option V → List Moment → Option V → Prop
  | nil {a : Option V} : Watched A i a [] a
  | own {v : V} {b : Option V} {ms : List Moment} :
      Watched A i (some v) ms b → Watched A i none (.applied i :: ms) b
  | other {j : Nat} {a b : Option V} {ms : List Moment} :
      j ≠ i → Watched A i a ms b → Watched A i a (.applied j :: ms) b
  | dropped {n : Nat} {a b : Option V} {ms : List Moment} :
      A n → Watched A i none ms b → Watched A i a (.assigned n :: ms) b
  | kept {n : Nat} {a b : Option V} {ms : List Moment} :
      ¬ A n → Watched A i a ms b → Watched A i a (.assigned n :: ms) b

namespace Watched

variable {A : Nat → Prop} {i : Nat} {a b c : Option V} {ms ls : List Moment}

theorem append (h₁ : Watched A i a ms b) (h₂ : Watched A i b ls c) :
    Watched A i a (ms ++ ls) c := by
  induction h₁ with
  | nil => exact h₂
  | own _ ih => exact .own (ih h₂)
  | other hj _ ih => exact .other hj (ih h₂)
  | dropped hA _ ih => exact .dropped hA (ih h₂)
  | kept hA _ ih => exact .kept hA (ih h₂)

theorem exists_between (h : Watched A i a (ms ++ ls) c) :
    ∃ b, Watched A i a ms b ∧ Watched A i b ls c := by
  induction ms generalizing a with
  | nil => exact ⟨a, .nil, h⟩
  | cons m ms ih =>
      cases h with
      | own h =>
          obtain ⟨b, h₁, h₂⟩ := ih h
          exact ⟨b, .own h₁, h₂⟩
      | other hj h =>
          obtain ⟨b, h₁, h₂⟩ := ih h
          exact ⟨b, .other hj h₁, h₂⟩
      | dropped hA h =>
          obtain ⟨b, h₁, h₂⟩ := ih h
          exact ⟨b, .dropped hA h₁, h₂⟩
      | kept hA h =>
          obtain ⟨b, h₁, h₂⟩ := ih h
          exact ⟨b, .kept hA h₁, h₂⟩

/-- The rule is applied only where there is no value, and then there is one. -/
theorem of_own (h : Watched A i a (.applied i :: ms) b) :
    a = none ∧ ∃ v, Watched A i (some v) ms b := by
  cases h with
  | own h => exact ⟨rfl, _, h⟩
  | other hj => exact (hj rfl).elim

theorem of_dropped {n : Nat} (h : Watched A i a (.assigned n :: ms) b) (hA : A n) :
    Watched A i none ms b := by
  cases h with
  | dropped _ h => exact h
  | kept hA' => exact (hA' hA).elim

/-- While nothing that the operator depends on is assigned, a value stays, and the applications of
the rule are the difference that they make. -/
theorem of_not_dropped (h : Watched A i a ms b) (hA : ∀ n, .assigned n ∈ ms → ¬ A n) :
    (∀ v, a = some v → b = some v) ∧
      ms.count (.applied i) + a.isSome.toNat = b.isSome.toNat := by
  induction h with
  | nil => simp
  | own h ih =>
      obtain ⟨hkeep, hcount⟩ := ih fun n hn => hA n (List.mem_cons_of_mem _ hn)
      refine ⟨nofun, ?_⟩
      rw [List.count_cons_self, ← hcount]
      rfl
  | other hj h ih =>
      obtain ⟨hkeep, hcount⟩ := ih fun n hn => hA n (List.mem_cons_of_mem _ hn)
      refine ⟨hkeep, ?_⟩
      rw [List.count_cons_of_ne (by simpa using hj), hcount]
  | dropped hA' => exact (hA _ List.mem_cons_self hA').elim
  | kept _ h ih =>
      obtain ⟨hkeep, hcount⟩ := ih fun n hn => hA n (List.mem_cons_of_mem _ hn)
      refine ⟨hkeep, ?_⟩
      rw [List.count_cons_of_ne (by simp), hcount]

/-- Only an application of the rule brings a value. -/
theorem eq_none (h : Watched A i a ms b) (ha : a = none) (hi : .applied i ∉ ms) : b = none := by
  induction h with
  | nil => exact ha
  | own => exact (hi List.mem_cons_self).elim
  | other _ _ ih | kept _ _ ih => exact ih ha fun hm => hi (List.mem_cons_of_mem _ hm)
  | dropped _ _ ih => exact ih rfl fun hm => hi (List.mem_cons_of_mem _ hm)

/-- Different rules are applied, that of the operator at most among them. -/
theorem of_nodup {ns : List Nat} (hn : ns.Nodup) (hself : i ∈ ns → a = none ∧ ∃ v, b = some v)
    (hother : i ∉ ns → b = a) : Watched A i a (ns.map .applied) b := by
  induction ns generalizing a with
  | nil =>
      rw [hother List.not_mem_nil]
      exact .nil
  | cons n ns ih =>
      obtain ⟨hns, hn⟩ := List.nodup_cons.1 hn
      by_cases hi : n = i
      · subst hi
        obtain ⟨rfl, v, rfl⟩ := hself List.mem_cons_self
        exact .own (v := v) (ih hn (fun hm => (hns hm).elim) fun _ => rfl)
      · refine .other hi (ih hn (fun hm => hself (List.mem_cons_of_mem n hm)) fun hm => hother ?_)
        simp [hm, Ne.symm hi]

end Watched

namespace Graph

variable {conversion : Conversion D V E} {rules : Rules V E} {g h : Graph V} {i n : Nat}
  {ms : List Moment} {A : Nat → Prop}

theorem WellFormed.downstream_iff (hg : g.WellFormed) :
    g.Downstream n i ↔ Relation.TransGen g.Uses i n := by
  have hfeeds : g.Feeds = Function.swap g.Uses := by
    funext a m
    exact propext hg.feeds_iff
  rw [Downstream, hfeeds]
  exact Relation.transGen_swap

theorem downstream_iff_reaches (hg : g.WellFormed) (hni : n ≠ i) :
    g.Downstream n i ↔ g.Reaches i n := by
  rw [hg.downstream_iff, Reaches, Relation.reflTransGen_iff_eq_or_transGen]
  constructor
  · exact .inr
  · exact fun h => h.resolve_left hni

end Graph

open DiffGraph.Graph

/-! ## One call -/

namespace Passage

variable {rules : Rules V E} {g h : Graph V} {i : Nat} {ms : List Moment} {A : Nat → Prop}

theorem toExtends (hp : Passage rules g ms h) (hg : g.WellFormed) : g.Extends h := by
  cases hp with
  | quiet hgrows => exact hgrows.toExtends
  | assign n v hn =>
      have hd := drops_invalidate (E := E) (hg.assigned hn v).consumersValid n
      exact .of_skeleton (hd.skeleton.trans (skeleton_withValue g n _))
  | evaluate n hn => exact .of_skeleton (recalls_evaluate rules hg.ascending hn).enriches.skeleton

theorem kind?_of_assigned (hp : Passage rules g ms h) {n : Nat} (hn : .assigned n ∈ ms) :
    g.kind? n = some .var := by
  cases hp with
  | quiet => cases hn
  | assign m v hm =>
      obtain rfl : n = m := by simpa using hn
      exact hm
  | evaluate => simp at hn

/-- What a call does to the value of an operator, if the nodes of which `A` holds are those that the
operator depends on. Before the operator is appended there is nothing to do. -/
theorem watched (hp : Passage rules g ms h) (hg : g.WellFormed)
    (hop : i < h.size → (h.kind? i).any Kind.isOperator)
    (hA : i < h.size → ∀ n, A n ↔ h.Reaches i n) :
    Watched A i (g.value? i) ms (h.value? i) := by
  rcases Nat.lt_or_ge i h.size with hi | hi
  · replace hop := hop hi
    replace hA := hA hi
    cases hp with
    | quiet hgrows =>
        rw [hgrows.value? i hop]
        exact .nil
    | assign n v hn =>
        have ha := hg.assigned hn v
        have hd := drops_invalidate (E := E) ha.consumersValid n
        rw [kind?_congr hd.skeleton] at hop
        have hni : n ≠ i := by
          rintro rfl
          rw [kind?_congr (skeleton_withValue g n _), hn] at hop
          cases hop
        have hdown := downstream_iff_reaches ha hni
        by_cases hAn : A n
        · have hreach := (reaches_congr hd.skeleton).1 ((hA n).1 hAn)
          rw [hd.dropped i (hdown.2 hreach) hop]
          exact .dropped hAn .nil
        · have hkept : ¬ (g.withValue n (some v)).Downstream n i := by
            intro hdn
            exact hAn ((hA n).2 ((reaches_congr hd.skeleton).2 (hdown.1 hdn)))
          rw [hd.kept i (.inl hkept), value?_withValue_ne g n _ hni.symm]
          exact .kept hAn .nil
    | evaluate n hn =>
        have hr := recalls_evaluate rules hg.ascending hn
        have hmem := hr.mem_computed_iff hg.ascending (m := i)
        refine .of_nodup (hr.nodup_computed hg.ascending) hmem.1 fun hni => ?_
        cases hv : g.value? i with
        | some v => exact hr.enriches.keeps i v hv
        | none =>
            by_contra hne
            exact hni (hmem.2 ⟨hv, Option.ne_none_iff_exists'.1 hne⟩)
  · have hgi : g.size ≤ i := Nat.le_trans (hp.toExtends hg).size_le hi
    rw [value?_eq_none_of_size_le hgi, value?_eq_none_of_size_le hi]
    cases hp with
    | quiet => exact .nil
    | assign n =>
        by_cases hAn : A n
        · exact .dropped hAn .nil
        · exact .kept hAn .nil
    | evaluate n hn =>
        have hr := recalls_evaluate rules hg.ascending hn
        refine .of_nodup (hr.nodup_computed hg.ascending) (fun hm => ?_) fun _ => rfl
        obtain ⟨-, v, hv⟩ := (hr.mem_computed_iff hg.ascending).1 hm
        rw [value?_eq_none_of_size_le hi] at hv
        cases hv

end Passage

namespace Call

variable {conversion : Conversion D V E} {rules : Rules V E} {g : Graph V} {n : Nat}

/-- Only an assignment that does not fail takes a reference, and then to the node that it means. -/
theorem eq_node_of_setValue {r : Ref} {d : D} {a : Answer V}
    (hok : (((setValue r d).perform conversion rules).run g).outcome = .ok a) :
    ∃ n, r = .node n := by
  rw [perform, Action.run_then_pure, Action.run_setValue] at hok
  cases hr : (g.check r : Except (Fault E) Nat) with
  | error e =>
      rw [hr] at hok
      cases hok
  | ok n => exact ⟨n, (check_eq_ok_iff.1 hr).1⟩

theorem moments_setValue {d : D} {a : Answer V}
    (hok : (((setValue (.node n) d).perform conversion rules).run g).outcome = .ok a) :
    (setValue (.node n) d).moments conversion rules g = [.assigned n] := by
  have hc := computed_setValue conversion.any (.node n) d g
  rw [moments, perform, Action.run_then_pure, Reply.moments_map]
  rw [perform, Action.run_then_pure] at hok
  rw [Reply.moments, hc]
  cases ho : ((Action.setValue conversion.any (.node n) d : Action V E Unit).run g).outcome with
  | ok u => rfl
  | error e =>
      rw [ho] at hok
      cases hok

theorem eq_setValue_of_assigned {call : Call D}
    (hn : .assigned n ∈ call.moments conversion rules g) :
    (∃ d, call = .setValue (.node n) d) ∧
      ∃ a, ((call.perform conversion rules).run g).outcome = .ok a := by
  cases hc : call.assigns? with
  | none =>
      rw [moments, hc, Reply.moments_none] at hn
      simp at hn
  | some m =>
      cases call with
      | setValue r d =>
          cases hout : (((setValue r d).perform conversion rules).run g).outcome with
          | error e =>
              rw [moments, Reply.moments, hout, perform, Action.run_then_pure,
                computed_setValue] at hn
              cases hn
          | ok a =>
              obtain ⟨k, rfl⟩ := eq_node_of_setValue hout
              rw [moments_setValue hout, List.mem_singleton, Moment.assigned.injEq] at hn
              exact ⟨⟨d, by rw [hn]⟩, a, rfl⟩
      | _ => cases hc

end Call

/-! ## Whole sessions -/

namespace Graph

variable {conversion : Conversion D V E} {rules : Rules V E} {g h : Graph V} {i n : Nat}
  {ms : List Moment} {A : Nat → Prop}

theorem WellFormed.after (hg : g.WellFormed) (conversion : Conversion D V E) (rules : Rules V E)
    (calls : List (Call D)) : (g.after conversion rules calls).WellFormed :=
  after_induction conversion rules hg (fun _ _ hg hc => hc.wellFormed hg) calls

theorem extends_after (hg : g.WellFormed) (conversion : Conversion D V E) (rules : Rules V E)
    (calls : List (Call D)) : g.Extends (g.after conversion rules calls) := by
  induction calls generalizing g with
  | nil => exact .refl g
  | cons call calls ih =>
      have hp := passage_perform hg conversion rules call
      exact (hp.toExtends hg).trans (ih (hg.after conversion rules [call]))

/-- What the first call of a session does to the value of an operator of the final graph. -/
theorem watched_perform (hg : g.WellFormed) (call : Call D) (calls : List (Call D))
    (hop : ((g.after conversion rules (call :: calls)).kind? i).any Kind.isOperator) :
    Watched (fun n => (g.after conversion rules (call :: calls)).Reaches i n) i (g.value? i)
      (call.moments conversion rules g)
      (((call.perform conversion rules).run g).graph.value? i) := by
  have hg' : ((call.perform conversion rules).run g).graph.WellFormed :=
    hg.after conversion rules [call]
  have hx := extends_after hg' conversion rules calls
  refine (passage_perform hg conversion rules call).watched hg ?_ ?_
  · intro hi
    rw [← hx.kind? i hi]
    exact hop
  · intro hi n
    exact hx.reaches_iff hg' hi

theorem watched_timeline (hg : g.WellFormed) (calls : List (Call D))
    (hop : ((g.after conversion rules calls).kind? i).any Kind.isOperator) :
    Watched (fun n => (g.after conversion rules calls).Reaches i n) i (g.value? i)
      (g.timeline conversion rules calls) ((g.after conversion rules calls).value? i) := by
  induction calls generalizing g with
  | nil => exact .nil
  | cons call calls ih =>
      have hg' : ((call.perform conversion rules).run g).graph.WellFormed :=
        hg.after conversion rules [call]
      exact (watched_perform hg call calls hop).append (ih hg' hop)

theorem kind?_of_assigned (hg : g.WellFormed) (calls : List (Call D))
    (hn : .assigned n ∈ g.timeline conversion rules calls) :
    (g.after conversion rules calls).kind? n = some .var := by
  induction calls generalizing g with
  | nil => cases hn
  | cons call calls ih =>
      have hp := passage_perform hg conversion rules call
      have hg' : ((call.perform conversion rules).run g).graph.WellFormed :=
        hg.after conversion rules [call]
      rcases List.mem_append.1 hn with hn | hn
      · have hk := hp.kind?_of_assigned hn
        rw [(extends_after hg conversion rules (call :: calls)).kind? n (lt_size_of_kind? hk)]
        exact hk
      · exact ih hg' hn

/-- Where a value is held, all that it depends on has one. -/
theorem Coherent.exists_value? (hc : Coherent rules g) (hg : g.WellFormed) (hr : g.Reaches n i)
    {v : V} (hv : g.value? n = some v) : ∃ w, g.value? i = some w := by
  induction hr with
  | refl => exact ⟨v, hv⟩
  | @tail a b _ hu ih =>
      obtain ⟨w, hw⟩ := ih
      obtain ⟨app, happ, -⟩ := Except.bind_eq_ok_iff.1 (hc a w hw)
      refine operands_of_result happ (hc a w hw) b ?_
      rw [hg.operands_of_application happ]
      exact hu

end Graph

open DiffGraph.Graph

theorem Action.value?_of_outcome_evalValue {rules : Rules V E} {g : Graph V} {r : Ref} {n : Nat}
    (hr : (g.resolve r : Except (Fault E) Nat) = .ok n) {v : V}
    (hok : ((evalValue rules r).run g).outcome = .ok v) :
    ((evalValue rules r).run g).graph.value? n = some v := by
  rcases resolve_eq_ok_iff.1 hr with ⟨rfl, hn⟩ | ⟨s, rfl, -⟩
  · exact value?_of_evalValue hn hok
  · rw [run_evalValue, hr] at hok ⊢
    cases hv : g.value? n with
    | none =>
        simp only [hv] at hok
        cases hok
    | some w =>
        simp only [hv] at hok ⊢
        rw [Except.ok.inj hok]

/-- The value of an operator is computed once for each assignment that bears on it. Between two
applications of its rule a variable that it depends on is assigned; after such an assignment it has
no value until its rule is applied again, and when an evaluation of the operator or of anything that
depends on it has answered, its rule has been applied exactly once since. Nothing but such an
assignment takes the value away. -/
theorem recomputed_once_per_assignment (conversion : Conversion D V E) (rules : Rules V E)
    (calls : List (Call D)) (i : Nat)
    (hi : ((Graph.empty.after conversion rules calls).kind? i).any Kind.isOperator) :
    let g := Graph.empty.after conversion rules calls
    (∀ xs ys zs, Graph.empty.timeline conversion rules calls =
        xs ++ .applied i :: (ys ++ .applied i :: zs) →
      ∃ n, .assigned n ∈ ys ∧ g.kind? n = some .var ∧ g.Reaches i n) ∧
    (∀ before n d since a, calls = before ++ .setValue (.node n) d :: since →
      let assignment := ((Call.setValue (.node n) d).perform conversion rules).run
        (Graph.empty.after conversion rules before)
      let later := assignment.graph.timeline conversion rules since
      assignment.outcome = .ok a → g.Reaches i n →
        (.applied i ∉ later → g.value? i = none) ∧
        ∀ mid r m b, since = mid ++ [.evalValue r] →
          let h := assignment.graph.after conversion rules mid
          (h.resolve r : Except (Fault E) Nat) = .ok m → g.Reaches m i →
            (((Call.evalValue r).perform conversion rules).run h).outcome = .ok b →
              (∀ k, .assigned k ∈ later → ¬ g.Reaches i k) → later.count (.applied i) = 1) ∧
    ∀ before call since, calls = before ++ call :: since →
      let h := Graph.empty.after conversion rules before
      let reply := (call.perform conversion rules).run h
      (∀ n d a, call = .setValue (.node n) d → reply.outcome = .ok a → ¬ g.Reaches i n) →
        ∀ w, h.value? i = some w → reply.graph.value? i = some w := by
  intro g
  obtain ⟨hg, hc⟩ := coherent_after conversion rules calls
  refine ⟨?_, ?_, ?_⟩
  · intro xs ys zs hsplit
    have hw := watched_timeline .empty calls hi
    rw [hsplit] at hw
    obtain ⟨_, -, hw⟩ := hw.exists_between
    obtain ⟨-, v, hw⟩ := hw.of_own
    obtain ⟨_, hbetween, hw⟩ := hw.exists_between
    obtain ⟨rfl, -⟩ := hw.of_own
    by_contra hnone
    have hv := (hbetween.of_not_dropped ?_).1 v rfl
    · cases hv
    · intro n hn hr
      refine hnone ⟨n, hn, kind?_of_assigned .empty calls ?_, hr⟩
      simp [hsplit, hn]
  · rintro before n d since a rfl assignment later hok hr
    have hbefore := wellFormed_after conversion rules before
    have hw := watched_timeline hbefore (.setValue (.node n) d :: since) (i := i) (by
      rw [← after_append]
      exact hi)
    rw [timeline, Call.moments_setValue hok, ← after_append] at hw
    have hlater : Watched (fun n => g.Reaches i n) i none later (g.value? i) := hw.of_dropped hr
    refine ⟨hlater.eq_none rfl, ?_⟩
    rintro mid r m b rfl h hres hm hok' hno
    have hgraph : g = (((Call.evalValue r).perform conversion rules).run h).graph := by
      simp only [g, h, assignment, after_append, after_cons, after_nil]
    rw [Call.perform, Action.graph_map] at hgraph
    rw [Call.perform, Action.run_map] at hok'
    cases hv : ((Action.evalValue rules r).run h).outcome with
    | error e =>
        rw [hv] at hok'
        cases hok'
    | ok v =>
        have hv' := Action.value?_of_outcome_evalValue hres hv
        rw [← hgraph] at hv'
        obtain ⟨w, hw⟩ := hc.exists_value? hg hm hv'
        have hcount := (hlater.of_not_dropped hno).2
        rw [hw] at hcount
        exact hcount
  · rintro before call since rfl h reply hno w hw
    have hbefore := wellFormed_after conversion rules before
    have hstep := watched_perform hbefore call since (i := i) (by
      rw [← after_append]
      exact hi)
    refine (hstep.of_not_dropped fun n hn => ?_).1 w hw
    obtain ⟨⟨d, rfl⟩, a, ha⟩ := Call.eq_setValue_of_assigned hn
    rw [← after_append]
    exact hno n d a rfl ha

/-- A square of `x` is computed by an evaluation that then fails at `y`, and once more after `x` is
assigned again. The assignment of `y` does not bear on it. -/
theorem recomputed_after_failed_evaluation :
    let before : List (Call Int) := [.emptyVariable "x", .setValue (.node 0) 3,
      .unary .square (.node 0), .emptyVariable "y", .binary .add (.node 1) (.node 2),
      .evalValue (.node 3), .setValue (.node 2) 7]
    let since : List (Call Int) := [.evalValue (.node 3)]
    let g := Graph.empty.after .whole .whole (before ++ .setValue (.node 0) 5 :: since)
    let h := Graph.empty.after .whole .whole (before ++ [.setValue (.node 0) 5])
    (∃ n, .assigned n ∈ [Moment.assigned 2, .assigned 0] ∧ g.kind? n = some .var ∧
        g.Reaches 1 n) ∧
      (h.timeline .whole .whole since).count (.applied 1) = 1 := by
  intro before since g h
  have htimeline : Graph.empty.timeline .whole .whole (before ++ .setValue (.node 0) 5 :: since) =
      [.assigned 0, .applied 1, .assigned 2, .assigned 0, .applied 1, .applied 3] := by
    unfold before since
    cbv
  have hlater : h.timeline .whole .whole since = [.applied 1, .applied 3] := by
    unfold h before since
    cbv
  have hone : g.inputsOf 1 = [0] := by
    unfold g before since
    cbv
  have hthree : g.inputsOf 3 = [1, 2] := by
    unfold g before since
    cbv
  have hreach₁ : g.Reaches 1 0 := .single (by simp [Uses, hone])
  have hreach₃ : g.Reaches 3 1 := .single (by simp [Uses, hthree])
  obtain ⟨hbetween, honce, -⟩ := recomputed_once_per_assignment .whole .whole
    (before ++ .setValue (.node 0) 5 :: since) 1 (by unfold before since; cbv)
  have hafter : h = (((Call.setValue (.node 0) 5).perform .whole .whole).run
      (Graph.empty.after .whole .whole before)).graph := after_append ..
  refine ⟨hbetween [.assigned 0] _ [.applied 3] htimeline, ?_⟩
  rw [hafter] at hlater ⊢
  refine (honce before 0 5 since .done rfl (by unfold before; cbv) hreach₁).2 [] (.node 3) 3
    (.value 32) rfl (by unfold before; cbv) hreach₃ (by unfold before; cbv) fun k hk => ?_
  rw [hlater] at hk
  simp at hk

end DiffGraph
