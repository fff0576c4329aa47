import DiffGraph.Proofs.Graph.Growth

/-!
# Well-formed graphs

A well-formed graph is what clients can build: every node has as many operands as its kind takes,
all of them earlier nodes, constants hold a value, and the three places where an edge is kept
agree. `WellFormed` depends on the skeleton and on the values of constants, so the walks of the
engine cannot break it; the other changes are treated one by one.
-/

namespace DiffGraph

/-- The number of operands that a kind of node takes. -/
def Kind.arity : Kind → Nat
  | .const | .var => 0
  | .unary _ => 1
  | .binary _ => 2

/-- Binding a name adds no other entry to the namespace. -/
theorem Names.mem_bind {s : String} {n : Nat} {names : Names} {e : String × Nat}
    (h : e ∈ names.bind s n) : e = (s, n) ∨ e ∈ names := by
  induction names with
  | nil => exact .inl (List.mem_singleton.1 h)
  | cons f rest ih =>
      rw [bind_cons] at h
      split at h
      · exact (List.mem_cons.1 h).imp id (List.mem_cons_of_mem f)
      · rcases List.mem_cons.1 h with rfl | h
        · exact .inr List.mem_cons_self
        · exact (ih h).imp id (List.mem_cons_of_mem f)

namespace Graph

variable {V E : Type}

/-- The shape of the graphs that clients can build. -/
structure WellFormed (g : Graph V) : Prop where
  /-- A node has as many operands as its kind takes. -/
  arity : ∀ n k, g.kind? n = some k → (g.inputsOf n).length = k.arity
  /-- A constant holds a value. -/
  constant : ∀ n, g.kind? n = some .const → (g.value? n).isSome
  /-- Operands are appended before the node that takes them. -/
  earlier : ∀ n, ∀ a ∈ g.inputsOf n, a < n
  /-- The edges are the operands of all nodes, in the order of the nodes. -/
  edges : g.edges.toList =
    (List.range g.size).flatMap fun n => (g.inputsOf n).map fun a => (a, (n : Int))
  /-- The consumers of a node are the ends of the edges that start there, in order. -/
  consumers : ∀ a, g.consumersOf a = (g.edges.toList.filter fun e => e.1 = a).map Prod.snd
  /-- A name is bound to a node of the graph. -/
  named : ∀ e ∈ g.names, e.2 < g.size

/-- Every edge goes from an earlier node to a later one. Nothing else is asked of the graph. -/
def Ascending (g : Graph V) : Prop := ∀ n, ∀ a ∈ g.inputsOf n, a < n

/-- Every operator has as many operands as it takes. -/
def Supplied (g : Graph V) : Prop :=
  ∀ n k, g.kind? n = some k → k.isOperator → (g.inputsOf n).length = k.arity

theorem Ascending.congr {g h : Graph V} (hg : g.Ascending) (e : h.skeleton = g.skeleton) :
    h.Ascending := by
  intro n a ha
  rw [inputsOf_congr e] at ha
  exact hg n a ha

theorem ascending_of_lt_size {g : Graph V} (h : ∀ n < g.size, ∀ a ∈ g.inputsOf n, a < n) :
    g.Ascending := by
  intro n a ha
  by_cases hn : n < g.size
  · exact h n hn a ha
  · rw [inputsOf_eq_nil_of_size_le (Nat.le_of_not_lt hn)] at ha
    cases ha

/-! ## What a node applies -/

section Application

variable {g : Graph V} {n : Nat}

theorem application_eq_leaf_iff :
    (g.application n : Except (Fault E) Application) = .ok .leaf ↔
      g.kind? n = some .const ∨ g.kind? n = some .var := by
  unfold application kind?
  cases h : g.nodes[n]? with
  | none => simp
  | some node =>
      obtain ⟨k, -, -, inputs, -⟩ := node
      cases k <;> rcases inputs with _ | ⟨a, _ | ⟨b, _ | _⟩⟩ <;> simp

theorem application_eq_unary_iff {op : Unary} {a : Nat} :
    (g.application n : Except (Fault E) Application) = .ok (.unary op a) ↔
      g.kind? n = some (.unary op) ∧ g.inputsOf n = [a] := by
  unfold application kind? inputsOf
  cases h : g.nodes[n]? with
  | none => simp
  | some node =>
      obtain ⟨k, -, -, inputs, -⟩ := node
      cases k <;> rcases inputs with _ | ⟨b, _ | ⟨c, _ | _⟩⟩ <;> simp

theorem application_eq_binary_iff {op : Binary} {l r : Nat} :
    (g.application n : Except (Fault E) Application) = .ok (.binary op l r) ↔
      g.kind? n = some (.binary op) ∧ g.inputsOf n = [l, r] := by
  unfold application kind? inputsOf
  cases h : g.nodes[n]? with
  | none => simp
  | some node =>
      obtain ⟨k, -, -, inputs, -⟩ := node
      cases k <;> rcases inputs with _ | ⟨b, _ | ⟨c, _ | _⟩⟩ <;> simp

theorem isOperator_of_application {app : Application}
    (h : (g.application n : Except (Fault E) Application) = .ok app) (hl : app ≠ .leaf) :
    (g.kind? n).any Kind.isOperator := by
  cases app with
  | leaf => exact (hl rfl).elim
  | unary op a => simp [(application_eq_unary_iff.1 h).1, Kind.isOperator]
  | binary op l r => simp [(application_eq_binary_iff.1 h).1, Kind.isOperator]

theorem application_ext {h : Graph V} (hk : h.kind? n = g.kind? n)
    (hi : h.inputsOf n = g.inputsOf n) :
    (h.application n : Except (Fault E) Application) = g.application n := by
  unfold kind? at hk
  unfold inputsOf at hi
  unfold application
  cases hn : g.nodes[n]? <;> cases hm : h.nodes[n]? <;> simp_all

theorem mem_inputsOf_of_application {app : Application}
    (h : (g.application n : Except (Fault E) Application) = .ok app) {a : Nat}
    (ha : a ∈ app.operands) : a ∈ g.inputsOf n := by
  cases app with
  | leaf => cases ha
  | unary op b => rwa [(application_eq_unary_iff.1 h).2]
  | binary op l r => rwa [(application_eq_binary_iff.1 h).2]

theorem Ascending.operand_lt (hg : g.Ascending) {a : Nat} {app : Application}
    (h : (g.application n : Except (Fault E) Application) = .ok app) (ha : a ∈ app.operands) :
    a < n :=
  hg n a (mem_inputsOf_of_application h ha)

end Application

namespace WellFormed

variable {g h : Graph V}

theorem exists_application (hg : g.WellFormed) {n : Nat} (hn : n < g.size) :
    ∃ app, (g.application n : Except (Fault E) Application) = .ok app := by
  obtain ⟨k, hk⟩ := exists_kind? hn
  have hlen := hg.arity n k hk
  cases k with
  | const => exact ⟨.leaf, application_eq_leaf_iff.2 (.inl hk)⟩
  | var => exact ⟨.leaf, application_eq_leaf_iff.2 (.inr hk)⟩
  | unary op =>
      obtain ⟨a, ha⟩ := List.length_eq_one_iff.1 hlen
      exact ⟨.unary op a, application_eq_unary_iff.2 ⟨hk, ha⟩⟩
  | binary op =>
      obtain ⟨l, r, hlr⟩ := List.length_eq_two.1 hlen
      exact ⟨.binary op l r, application_eq_binary_iff.2 ⟨hk, hlr⟩⟩

theorem ascending (hg : g.WellFormed) : g.Ascending := hg.earlier

theorem supplied (hg : g.WellFormed) : g.Supplied := fun n k hk _ => hg.arity n k hk

theorem operand_lt (hg : g.WellFormed) {n a : Nat} {app : Application}
    (h : (g.application n : Except (Fault E) Application) = .ok app) (ha : a ∈ app.operands) :
    a < n :=
  hg.ascending.operand_lt h ha

theorem inputsOf_of_leaf (hg : g.WellFormed) {n : Nat}
    (h : (g.application n : Except (Fault E) Application) = .ok .leaf) : g.inputsOf n = [] := by
  rcases application_eq_leaf_iff.1 h with hk | hk
  · exact List.length_eq_zero_iff.1 (hg.arity n _ hk)
  · exact List.length_eq_zero_iff.1 (hg.arity n _ hk)

theorem operands_of_application (hg : g.WellFormed) {n : Nat} {app : Application}
    (h : (g.application n : Except (Fault E) Application) = .ok app) :
    app.operands = g.inputsOf n := by
  cases app with
  | leaf => exact (hg.inputsOf_of_leaf h).symm
  | unary op a => exact (application_eq_unary_iff.1 h).2.symm
  | binary op l r => exact (application_eq_binary_iff.1 h).2.symm

theorem lt_size_of_mem_inputsOf (hg : g.WellFormed) {n a : Nat} (h : a ∈ g.inputsOf n) :
    a < n ∧ n < g.size := by
  refine ⟨hg.earlier n a h, ?_⟩
  by_contra hn
  rw [inputsOf_eq_nil_of_size_le (Nat.le_of_not_lt hn)] at h
  cases h

theorem mem_consumersOf_iff (hg : g.WellFormed) {a : Nat} {i : Int} :
    i ∈ g.consumersOf a ↔ ∃ m : Nat, i = m ∧ a ∈ g.inputsOf m := by
  rw [hg.consumers a, hg.edges]
  simp only [List.mem_map, List.mem_filter, List.mem_flatMap, List.mem_range, decide_eq_true_eq]
  constructor
  · rintro ⟨e, ⟨⟨m, -, b, hb, rfl⟩, rfl⟩, rfl⟩
    exact ⟨m, rfl, hb⟩
  · rintro ⟨m, rfl, ha⟩
    exact ⟨(a, m), ⟨⟨m, (hg.lt_size_of_mem_inputsOf ha).2, a, ha, rfl⟩, rfl⟩, rfl⟩

/-! ## Changes that keep a graph well-formed -/

/-- Of the edges from some operands to one node, those from a given operand. -/
theorem map_snd_filter_map (operands : List Nat) (a : Nat) (i : Int) :
    ((operands.map fun b => (b, i)).filter fun e => e.1 = a).map Prod.snd =
      List.replicate (operands.count a) i := by
  induction operands with
  | nil => rfl
  | cons b operands ih =>
      by_cases hb : b = a
      · simp [hb, ih, List.replicate_succ]
      · simp [hb, ih]

theorem empty : (Graph.empty : Graph V).WellFormed where
  arity n k h := by simp [Graph.empty, kind?] at h
  constant n h := by simp [Graph.empty, kind?] at h
  earlier n a h := by simp [Graph.empty, inputsOf] at h
  edges := by simp [Graph.empty, size]
  consumers a := by simp [Graph.empty, consumersOf]
  named e h := by simp [Graph.empty] at h

/-- Well-formedness rests on the skeleton and on the values of constants. -/
theorem of_skeleton (hg : g.WellFormed) (e : h.skeleton = g.skeleton)
    (hc : ∀ n, g.kind? n = some .const → h.value? n = g.value? n) : h.WellFormed where
  arity n k hk := by
    rw [kind?_congr e] at hk
    rw [inputsOf_congr e]
    exact hg.arity n k hk
  constant n hk := by
    rw [kind?_congr e] at hk
    rw [hc n hk]
    exact hg.constant n hk
  earlier n a ha := by
    rw [inputsOf_congr e] at ha
    exact hg.earlier n a ha
  edges := by
    rw [edges_congr e, size_congr e, hg.edges]
    simp only [inputsOf_congr e]
  consumers a := by rw [consumersOf_congr e, edges_congr e, hg.consumers a]
  named x hx := by
    rw [names_congr e] at hx
    rw [size_congr e]
    exact hg.named x hx

theorem append_leaf (hg : g.WellFormed) {k : Kind} {v : Option V} (hk : k.arity = 0)
    (hv : k = .const → v.isSome) : (g.append (.fresh k v)).WellFormed where
  arity n k' h := by
    rw [kind?_append] at h
    rw [inputsOf_append_fresh]
    split at h
    · rename_i hn
      rw [← Option.some.inj h, inputsOf_eq_nil_of_size_le (Nat.le_of_eq hn.symm)]
      exact hk.symm
    · exact hg.arity n k' h
  constant n h := by
    rw [kind?_append] at h
    rw [value?_append]
    split at h
    · rename_i hn
      rw [if_pos hn]
      exact hv (Option.some.inj h)
    · rename_i hn
      rw [if_neg hn]
      exact hg.constant n h
  earlier n a h := by
    rw [inputsOf_append_fresh] at h
    exact hg.earlier n a h
  edges := by
    have hnil : g.inputsOf g.size = [] := inputsOf_eq_nil_of_size_le (Nat.le_refl _)
    simp only [inputsOf_append_fresh, size_append, List.range_succ, List.flatMap_append]
    simp only [List.flatMap_singleton, hnil, List.map_nil, List.append_nil]
    exact hg.edges
  consumers a := by
    rw [consumersOf_append_fresh]
    exact hg.consumers a
  named e h := by
    rw [size_append]
    exact Nat.lt_succ_of_lt (hg.named e h)

theorem appendOperator (hg : g.WellFormed) {k : Kind} {operands : List Nat}
    (hk : k.isOperator) (hl : operands.length = k.arity) (ho : ∀ a ∈ operands, a < g.size) :
    (g.appendOperator k operands).WellFormed where
  arity n k' h := by
    rw [kind?_appendOperator] at h
    rw [inputsOf_appendOperator]
    split at h
    · rename_i hn
      rw [if_pos hn, ← Option.some.inj h]
      exact hl
    · rename_i hn
      rw [if_neg hn]
      exact hg.arity n k' h
  constant n h := by
    rw [kind?_appendOperator] at h
    rw [value?_appendOperator]
    split at h
    · rw [Option.some.inj h] at hk
      cases hk
    · exact hg.constant n h
  earlier n a h := by
    rw [inputsOf_appendOperator] at h
    split at h
    · rename_i hn
      rw [hn]
      exact ho a h
    · exact hg.earlier n a h
  edges := by
    have hold : ∀ n ∈ List.range g.size, ((g.appendOperator k operands).inputsOf n).map
        (fun a => (a, (n : Int))) = (g.inputsOf n).map fun a => (a, (n : Int)) := by
      intro n hn
      rw [inputsOf_appendOperator, if_neg (Nat.ne_of_lt (List.mem_range.1 hn))]
    rw [edges_appendOperator, size_appendOperator, List.range_succ, List.flatMap_append]
    rw [List.flatMap_congr hold, ← hg.edges, List.flatMap_singleton, inputsOf_appendOperator,
      if_pos rfl]
  consumers a := by
    rw [consumersOf_appendOperator _ _ _ ho, edges_appendOperator, List.filter_append,
      List.map_append, ← hg.consumers a, map_snd_filter_map]
  named e h := by
    rw [names_appendOperator] at h
    rw [size_appendOperator]
    exact Nat.lt_succ_of_lt (hg.named e h)

theorem bindName (hg : g.WellFormed) (s : String) {n : Nat} (hn : n < g.size) :
    (g.bindName s n).WellFormed where
  arity := hg.arity
  constant := hg.constant
  earlier := hg.earlier
  edges := hg.edges
  consumers := hg.consumers
  named e h := by
    rcases Names.mem_bind h with rfl | h
    · exact hn
    · exact hg.named e h

end WellFormed

end Graph

end DiffGraph
