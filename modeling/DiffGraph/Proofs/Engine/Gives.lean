import DiffGraph.Proofs.Engine.Coherence
import DiffGraph.Proofs.Engine.Refusal

/-!
# Actions that succeed

`Gives` relates a graph on which an action succeeds to its result and to the graph that it leaves.
A sequence of actions gives what the last one gives on the graphs that the others leave, and for
each action that appends a node there is one description of all that it can give. What is made of
the changes of calls alone keeps their invariants.
-/

namespace DiffGraph

@[simp] theorem Ref.node_inj {a b : Nat} : Ref.node a = Ref.node b ↔ a = b := by
  rw [node, node, index.injEq, Int.ofNat_inj]

namespace Action

open DiffGraph.Graph

variable {D V E α β : Type} {g h k : Graph V} {n : Nat}

/-- The action succeeds with a result and leaves a graph. -/
def Gives (x : Action V E α) (g : Graph V) (a : α) (h : Graph V) : Prop :=
  ∃ events, x.run g = ⟨.ok a, h, events⟩

theorem gives_iff {x : Action V E α} {a : α} :
    x.Gives g a h ↔ (x.run g).outcome = .ok a ∧ (x.run g).graph = h := by
  constructor
  · rintro ⟨events, hx⟩
    rw [hx]
    exact ⟨rfl, rfl⟩
  · rintro ⟨ha, hh⟩
    exact ⟨(x.run g).events, by rw [← ha, ← hh]⟩

theorem gives_of_outcome {x : Action V E α} {a : α} (hx : (x.run g).outcome = .ok a) :
    x.Gives g a (x.run g).graph :=
  gives_iff.2 ⟨hx, rfl⟩

theorem outcome_eq_ok_iff {x : Action V E α} {a : α} :
    (x.run g).outcome = .ok a ↔ ∃ h, x.Gives g a h :=
  ⟨fun hx => ⟨_, gives_of_outcome hx⟩, fun ⟨_, hx⟩ => (gives_iff.1 hx).1⟩

theorem Gives.unique {x : Action V E α} {a b : α} (ha : x.Gives g a h) (hb : x.Gives g b k) :
    a = b ∧ h = k := by
  obtain ⟨events, ha⟩ := ha
  obtain ⟨events', hb⟩ := hb
  rw [ha, Reply.mk.injEq, Except.ok.injEq] at hb
  exact ⟨hb.1, hb.2.1⟩

@[simp] theorem gives_pure_iff {a b : α} :
    (pure a : Action V E α).Gives g b h ↔ a = b ∧ g = h := by
  rw [gives_iff, run_pure, Except.ok.injEq]

theorem gives_bind_iff {x : Action V E α} {f : α → Action V E β} {b : β} :
    (x >>= f).Gives g b k ↔ ∃ a h, x.Gives g a h ∧ (f a).Gives h b k := by
  constructor
  · rintro ⟨events, hb⟩
    rw [run_bind] at hb
    cases hx : x.run g with
    | mk outcome h before =>
        rw [hx] at hb
        cases outcome with
        | error e => simp at hb
        | ok a =>
            rw [Reply.mk.injEq] at hb
            exact ⟨a, h, ⟨before, hx⟩, gives_iff.2 ⟨hb.1, hb.2.1⟩⟩
  · rintro ⟨a, h, ⟨before, hx⟩, after, hf⟩
    exact ⟨before ++ after, by simp only [run_bind, hx, hf]⟩

theorem gives_constant_iff {convert : D → Except E V} {d : D} :
    (constant convert d).Gives g n h ↔
      ∃ v, convert d = .ok v ∧ n = g.size ∧ h = g.append (.fresh .const (some v)) := by
  rw [gives_iff, run_constant]
  cases convert d with
  | error e => simp
  | ok v => simp [eq_comm]

theorem gives_unary_iff {op : Unary} {r : Ref} :
    (unary op r : Action V E Nat).Gives g n h ↔
      ∃ a, r = .node a ∧ a < g.size ∧ n = g.size ∧ h = g.appendOperator (.unary op) [a] := by
  rw [gives_iff, run_unary]
  cases hr : (g.check r : Except (Fault E) Nat) with
  | ok a =>
      obtain ⟨rfl, ha⟩ := check_eq_ok_iff.1 hr
      constructor
      · rintro ⟨hn, hh⟩
        exact ⟨a, rfl, ha, (Except.ok.inj hn).symm, hh.symm⟩
      · rintro ⟨b, hb, -, rfl, rfl⟩
        rw [Ref.node_inj.1 hb]
        exact ⟨rfl, rfl⟩
  | error e =>
      refine iff_of_false (fun hx => by cases hx.1) ?_
      rintro ⟨a, rfl, ha, -⟩
      rw [check_node ha] at hr
      cases hr

theorem gives_binary_iff {op : Binary} {lhs rhs : Ref} :
    (binary op lhs rhs : Action V E Nat).Gives g n h ↔
      ∃ l r, lhs = .node l ∧ rhs = .node r ∧ l < g.size ∧ r < g.size ∧ n = g.size ∧
        h = g.appendOperator (.binary op) [l, r] := by
  constructor
  · intro hx
    rw [gives_iff, run_binary] at hx
    cases hl : (g.check lhs : Except (Fault E) Nat) with
    | error e =>
        rw [hl] at hx
        cases hx.1
    | ok l =>
        cases hr : (g.check rhs : Except (Fault E) Nat) with
        | error e =>
            rw [hl, hr] at hx
            cases hx.1
        | ok r =>
            rw [hl, hr] at hx
            obtain ⟨rfl, hlt⟩ := check_eq_ok_iff.1 hl
            obtain ⟨rfl, hrt⟩ := check_eq_ok_iff.1 hr
            exact ⟨l, r, rfl, rfl, hlt, hrt, (Except.ok.inj hx.1).symm, hx.2.symm⟩
  · rintro ⟨l, r, rfl, rfl, hl, hr, rfl, rfl⟩
    rw [gives_iff, run_binary, check_node hl, check_node hr]
    exact ⟨rfl, rfl⟩

/-- The opposite of the right operand is appended first, then its sum with the left one. -/
theorem gives_sub_iff {lhs rhs : Ref} :
    (sub lhs rhs : Action V E Nat).Gives g n h ↔
      ∃ l r, lhs = .node l ∧ rhs = .node r ∧ l < g.size + 1 ∧ r < g.size ∧ n = g.size + 1 ∧
        h = (g.appendOperator (.unary .neg) [r]).appendOperator (.binary .add) [l, g.size] := by
  rw [sub, gives_bind_iff]
  constructor
  · rintro ⟨m, k, hm, hn⟩
    obtain ⟨r, rfl, hr, rfl, rfl⟩ := gives_unary_iff.1 hm
    obtain ⟨l, m, rfl, hlast, hl, -, rfl, rfl⟩ := gives_binary_iff.1 hn
    rw [size_appendOperator] at hl
    exact ⟨l, r, rfl, rfl, hl, hr, size_appendOperator g _ _, by rw [Ref.node_inj.1 hlast]⟩
  · rintro ⟨l, r, rfl, rfl, hl, hr, rfl, rfl⟩
    refine ⟨_, _, gives_unary_iff.2 ⟨r, rfl, hr, rfl, rfl⟩,
      gives_binary_iff.2 ⟨l, g.size, rfl, rfl, ?_, ?_, ?_, rfl⟩⟩
    · rwa [size_appendOperator]
    · rw [size_appendOperator]
      exact Nat.lt_succ_self _
    · rw [size_appendOperator]

theorem gives_variableOf_iff {conversion : Conversion D V E} (hc : conversion.Settled)
    {s : String} {d : D} :
    (variableOf conversion conversion.any s d).Gives g n h ↔
      ∃ v, conversion.any d = .ok v ∧ g.names.get? s = none ∧ n = g.size ∧
        h = (g.append (.fresh .var (some v))).bindName s g.size := by
  have hrun := run_variableOf_of_settled hc .any s d g
  simp only [Conversion.of] at hrun
  rw [gives_iff, hrun]
  cases conversion.any d with
  | error e => simp
  | ok v =>
      cases g.names.get? s with
      | some m => simp
      | none => simp [eq_comm]

/-! ## Changes -/

/-- An action that makes some of the changes that calls make. -/
def Changes (rules : Rules V E) (x : Action V E α) : Prop :=
  ∀ g : Graph V, Relation.ReflTransGen (Change rules) g (x.run g).graph

namespace Changes

variable {rules : Rules V E}

theorem pure (a : α) : (Pure.pure a : Action V E α).Changes rules := fun _ => .refl

theorem bind {x : Action V E α} {f : α → Action V E β} (hx : x.Changes rules)
    (hf : ∀ a, (f a).Changes rules) : (x >>= f).Changes rules := by
  intro g
  have hfirst := hx g
  rw [run_bind]
  generalize x.run g = reply at hfirst
  obtain ⟨e | a, h, events⟩ := reply
  · exact hfirst
  · exact hfirst.trans (hf a h)

theorem coherent {x : Action V E α} (hx : x.Changes rules) (hg : g.WellFormed)
    (hc : Coherent rules g) {a : α} (hgives : x.Gives g a h) :
    h.WellFormed ∧ Coherent rules h := by
  obtain ⟨-, rfl⟩ := Action.gives_iff.1 hgives
  exact coherent_of_changes (hx g) hg hc

end Changes

end Action

end DiffGraph
