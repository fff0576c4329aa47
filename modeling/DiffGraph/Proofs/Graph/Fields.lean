import DiffGraph.Engine.Invalidation
import Mathlib.Data.List.Basic

/-!
# What a change of a graph does to its fields

A graph is read through the fields of its nodes: `value?`, `deriv?`, `kind?`, `inputsOf` and
`consumersOf`. For each way to change a graph there is one equation per field, so that nothing
further on opens the arena. The skeleton of a graph is what is left of it without values and
gradients; the walks of the engine keep the skeleton.
-/

namespace DiffGraph

/-- The node without its value and its gradient. -/
def Node.bare {V : Type} (node : Node V) : Node V := { node with value := none, deriv := none }

namespace Graph

variable {V E : Type}

/-- The operands of a node in the order of their connection. -/
def inputsOf (g : Graph V) (n : Nat) : List Nat := ((g.nodes[n]?).map Node.inputs).getD []

/-- The graph without values and gradients. -/
def skeleton (g : Graph V) : Graph V := { g with nodes := g.nodes.map Node.bare }

theorem kind?_isSome_iff (g : Graph V) (n : Nat) : (g.kind? n).isSome ↔ n < g.size := by
  simp [kind?, size]

theorem kind?_eq_none_iff (g : Graph V) (n : Nat) : g.kind? n = none ↔ g.size ≤ n := by
  simp [kind?, size]

theorem lt_size_of_kind? {g : Graph V} {n : Nat} {k : Kind} (h : g.kind? n = some k) :
    n < g.size := by
  rw [← kind?_isSome_iff, h]
  rfl

theorem exists_kind? {g : Graph V} {n : Nat} (h : n < g.size) : ∃ k, g.kind? n = some k :=
  Option.isSome_iff_exists.1 ((kind?_isSome_iff g n).2 h)

theorem value?_eq_none_of_size_le {g : Graph V} {n : Nat} (h : g.size ≤ n) :
    g.value? n = none := by
  have hn : g.nodes[n]? = none := by simpa [size] using h
  simp [value?, hn]

theorem deriv?_eq_none_of_size_le {g : Graph V} {n : Nat} (h : g.size ≤ n) :
    g.deriv? n = none := by
  have hn : g.nodes[n]? = none := by simpa [size] using h
  simp [deriv?, hn]

theorem inputsOf_eq_nil_of_size_le {g : Graph V} {n : Nat} (h : g.size ≤ n) :
    g.inputsOf n = [] := by
  have hn : g.nodes[n]? = none := by simpa [size] using h
  simp [inputsOf, hn]

theorem consumersOf_eq_nil_of_size_le {g : Graph V} {n : Nat} (h : g.size ≤ n) :
    g.consumersOf n = [] := by
  have hn : g.nodes[n]? = none := by simpa [size] using h
  simp [consumersOf, hn]

theorem lt_size_of_value? {g : Graph V} {n : Nat} {v : V} (h : g.value? n = some v) :
    n < g.size := by
  by_contra hn
  rw [value?_eq_none_of_size_le (Nat.le_of_not_lt hn)] at h
  cases h

/-! ## References to nodes -/

/-- A reference is accepted if and only if it is the index of a node of the graph. -/
theorem check_eq_ok_iff {g : Graph V} {r : Ref} {n : Nat} :
    (g.check r : Except (Fault E) Nat) = .ok n ↔ r = .node n ∧ n < g.size := by
  cases r with
  | index i =>
      simp only [check, Ref.node, Ref.index.injEq]
      split
      · simp only [Except.ok.injEq]
        omega
      · simp only [reduceCtorEq, false_iff]
        omega
  | name s => simp [check, Ref.node]
  | array l s => simp [check, Ref.node]
  | other l t => simp [check, Ref.node]

theorem check_node {g : Graph V} {n : Nat} (hn : n < g.size) :
    (g.check (.node n) : Except (Fault E) Nat) = .ok n :=
  check_eq_ok_iff.2 ⟨rfl, hn⟩

/-- A whole number is the index of a node, or is refused. -/
theorem check_index (g : Graph V) (i : Int) :
    (∃ n : Nat, i = n ∧ n < g.size ∧ (g.check (.index i) : Except (Fault E) Nat) = .ok n) ∨
      (¬ (0 ≤ i ∧ i < g.size) ∧
        (g.check (.index i) : Except (Fault E) Nat) = .error (.foreignIndex (.index i))) := by
  by_cases hi : 0 ≤ i ∧ i < g.size
  · refine .inl ⟨i.toNat, by omega, by omega, ?_⟩
    rw [check, if_pos hi]
  · refine .inr ⟨hi, ?_⟩
    rw [check, if_neg hi]

/-- A name is accepted as well where a reference is resolved. -/
theorem resolve_eq_ok_iff {g : Graph V} {r : Ref} {n : Nat} :
    (g.resolve r : Except (Fault E) Nat) = .ok n ↔
      (r = .node n ∧ n < g.size) ∨ ∃ s, r = .name s ∧ g.names.get? s = some n := by
  cases r with
  | name s =>
      cases h : g.names.get? s <;> simp [resolve, lookup, Ref.node, h]
  | index i => simp [resolve, check_eq_ok_iff]
  | array l s => simp [resolve, check_eq_ok_iff]
  | other l t => simp [resolve, check_eq_ok_iff]

theorem resolve_node {g : Graph V} {n : Nat} (hn : n < g.size) :
    (g.resolve (.node n) : Except (Fault E) Nat) = .ok n :=
  resolve_eq_ok_iff.2 (.inl ⟨rfl, hn⟩)

theorem place_natCast {g : Graph V} {m : Nat} (hm : m < g.size) : g.place m = some m := by
  have h : (0 : Int) ≤ m := Int.natCast_nonneg m
  simp [place, h, hm]

/-! ## Changing one node -/

section Modify

variable (g : Graph V) (n : Nat) (v : Option V)

@[simp] theorem size_modify (f : Node V → Node V) : (g.modify n f).size = g.size := by
  simp [modify, size]

theorem getElem?_nodes_modify (f : Node V → Node V) (m : Nat) :
    (g.modify n f).nodes[m]? = if m = n then (g.nodes[m]?).map f else g.nodes[m]? := by
  rw [modify, Array.getElem?_modify]
  simp only [eq_comm]

/-- A field that the change leaves alone at the node is left alone everywhere. -/
theorem map_nodes_modify {β : Type} (f : Node V → Node V) (field : Node V → β)
    (h : ∀ node, field (f node) = field node) (m : Nat) :
    ((g.modify n f).nodes[m]?).map field = (g.nodes[m]?).map field := by
  rw [getElem?_nodes_modify]
  split
  · rw [Option.map_map]
    exact congrArg (fun k => (g.nodes[m]?).map k) (funext h)
  · rfl

theorem value?_eq_join (m : Nat) : g.value? m = ((g.nodes[m]?).map Node.value).join := by
  cases h : g.nodes[m]? <;> simp [value?, h]

theorem deriv?_eq_join (m : Nat) : g.deriv? m = ((g.nodes[m]?).map Node.deriv).join := by
  cases h : g.nodes[m]? <;> simp [deriv?, h]

@[simp] theorem size_withValue : (g.withValue n v).size = g.size := size_modify g n _

@[simp] theorem size_withDeriv : (g.withDeriv n v).size = g.size := size_modify g n _

@[simp] theorem size_dropComputed : (g.dropComputed n).size = g.size := size_modify g n _

@[simp] theorem size_withoutDerivs : g.withoutDerivs.size = g.size := by
  simp [withoutDerivs, size]

theorem value?_withValue (m : Nat) :
    (g.withValue n v).value? m = if m = n ∧ n < g.size then v else g.value? m := by
  rw [value?_eq_join, withValue, getElem?_nodes_modify]
  by_cases h : m = n
  · subst h
    by_cases hm : m < g.nodes.size <;> simp [size, hm, value?]
  · simp [h, value?_eq_join]

theorem value?_withValue_ne {m : Nat} (h : m ≠ n) :
    (g.withValue n v).value? m = g.value? m := by
  simp [value?_withValue, h]

theorem value?_withValue_self (h : n < g.size) : (g.withValue n v).value? n = v := by
  simp [value?_withValue, h]

@[simp] theorem deriv?_withValue (m : Nat) : (g.withValue n v).deriv? m = g.deriv? m := by
  have hd := map_nodes_modify g n (fun node => { node with value := v }) Node.deriv
    (fun _ => rfl) m
  rw [deriv?_eq_join, deriv?_eq_join]
  exact congrArg Option.join hd

theorem deriv?_withDeriv (m : Nat) :
    (g.withDeriv n v).deriv? m = if m = n ∧ n < g.size then v else g.deriv? m := by
  rw [deriv?_eq_join, withDeriv, getElem?_nodes_modify]
  by_cases h : m = n
  · subst h
    by_cases hm : m < g.nodes.size <;> simp [size, hm, deriv?]
  · simp [h, deriv?_eq_join]

@[simp] theorem value?_withDeriv (m : Nat) : (g.withDeriv n v).value? m = g.value? m := by
  have hv := map_nodes_modify g n (fun node => { node with deriv := v }) Node.value
    (fun _ => rfl) m
  rw [value?_eq_join, value?_eq_join]
  exact congrArg Option.join hv

theorem value?_dropComputed (m : Nat) :
    (g.dropComputed n).value? m =
      if m = n ∧ (g.kind? n).any Kind.isOperator then none else g.value? m := by
  rw [value?_eq_join, dropComputed, getElem?_nodes_modify]
  by_cases h : m = n
  · subst h
    cases hm : g.nodes[m]? with
    | none => simp [kind?, value?, hm]
    | some node => by_cases hk : node.kind.isOperator <;> simp [kind?, value?, hm, hk]
  · simp [h, value?_eq_join]

@[simp] theorem deriv?_dropComputed (m : Nat) : (g.dropComputed n).deriv? m = g.deriv? m := by
  have hd : ∀ node : Node V,
      (if node.kind.isOperator then { node with value := none } else node).deriv = node.deriv := by
    intro node
    split <;> rfl
  rw [deriv?_eq_join, deriv?_eq_join]
  exact congrArg Option.join (map_nodes_modify g n _ Node.deriv hd m)

@[simp] theorem value?_withoutDerivs (m : Nat) : g.withoutDerivs.value? m = g.value? m := by
  cases h : g.nodes[m]? <;> simp [value?, withoutDerivs, h]

@[simp] theorem deriv?_withoutDerivs (m : Nat) : g.withoutDerivs.deriv? m = none := by
  cases h : g.nodes[m]? <;> simp [deriv?, withoutDerivs, h]

end Modify

/-! ## The skeleton -/

section Skeleton

variable (g : Graph V) (n : Nat) (v : Option V)

theorem skeleton_modify (f : Node V → Node V)
    (h : ∀ node, (f node).bare = node.bare) :
    (g.modify n f).skeleton = g.skeleton := by
  unfold skeleton modify
  congr 1
  apply Array.ext_getElem?
  intro m
  simp only [Array.getElem?_map, Array.getElem?_modify]
  split
  · rw [Option.map_map]
    exact congrArg (fun k => (g.nodes[m]?).map k) (funext h)
  · rfl

@[simp] theorem skeleton_withValue : (g.withValue n v).skeleton = g.skeleton :=
  skeleton_modify g n _ fun _ => rfl

@[simp] theorem skeleton_withDeriv : (g.withDeriv n v).skeleton = g.skeleton :=
  skeleton_modify g n _ fun _ => rfl

@[simp] theorem skeleton_dropComputed : (g.dropComputed n).skeleton = g.skeleton := by
  refine skeleton_modify g n _ fun node => ?_
  split <;> rfl

@[simp] theorem skeleton_withoutDerivs : g.withoutDerivs.skeleton = g.skeleton := by
  simp [skeleton, withoutDerivs, Node.bare, Function.comp_def]

theorem size_skeleton : g.skeleton.size = g.size := by
  simp [skeleton, size]

theorem kind?_skeleton : g.skeleton.kind? n = g.kind? n := by
  cases h : g.nodes[n]? <;> simp [kind?, skeleton, Node.bare, h]

theorem inputsOf_skeleton : g.skeleton.inputsOf n = g.inputsOf n := by
  cases h : g.nodes[n]? <;> simp [inputsOf, skeleton, Node.bare, h]

theorem consumersOf_skeleton : g.skeleton.consumersOf n = g.consumersOf n := by
  cases h : g.nodes[n]? <;> simp [consumersOf, skeleton, Node.bare, h]

theorem application_skeleton :
    (g.skeleton.application n : Except (Fault E) Application) = g.application n := by
  cases h : g.nodes[n]? <;> simp [application, skeleton, Node.bare, h]

end Skeleton

section Congr

variable {g h : Graph V} (e : h.skeleton = g.skeleton)
include e

theorem size_congr : h.size = g.size := by
  rw [← size_skeleton, e, size_skeleton]

theorem kind?_congr (n : Nat) : h.kind? n = g.kind? n := by
  rw [← kind?_skeleton, e, kind?_skeleton]

theorem inputsOf_congr (n : Nat) : h.inputsOf n = g.inputsOf n := by
  rw [← inputsOf_skeleton, e, inputsOf_skeleton]

theorem consumersOf_congr (n : Nat) : h.consumersOf n = g.consumersOf n := by
  rw [← consumersOf_skeleton, e, consumersOf_skeleton]

theorem application_congr (n : Nat) :
    (h.application n : Except (Fault E) Application) = g.application n := by
  rw [← application_skeleton, e, application_skeleton]

theorem names_congr : h.names = g.names :=
  (congrArg Graph.names e : h.skeleton.names = g.skeleton.names)

theorem edges_congr : h.edges = g.edges :=
  (congrArg Graph.edges e : h.skeleton.edges = g.skeleton.edges)

/-- The skeleton, the values and the gradients make up the graph. -/
theorem eq_of_skeleton (hv : ∀ n, h.value? n = g.value? n) (hd : ∀ n, h.deriv? n = g.deriv? n) :
    h = g := by
  have hnodes : h.nodes = g.nodes := by
    apply Array.ext_getElem?
    intro n
    have hb : (h.nodes[n]?).map Node.bare = (g.nodes[n]?).map Node.bare := by
      simpa [skeleton] using congrArg (fun k : Graph V => k.nodes[n]?) e
    have hvn := hv n
    have hdn := hd n
    unfold value? at hvn
    unfold deriv? at hdn
    cases hg : g.nodes[n]? with
    | none => simpa [hg] using hb
    | some node =>
        cases hh : h.nodes[n]? with
        | none => simp [hg, hh] at hb
        | some node' =>
            obtain ⟨k, v, d, inputs, consumers⟩ := node
            obtain ⟨k', v', d', inputs', consumers'⟩ := node'
            simp only [hg, hh, Option.map_some, Node.bare, Option.some.injEq, Node.mk.injEq,
              true_and] at hb
            simp only [hg, hh, bind, Option.bind] at hvn hdn
            simp only [hb, hvn, hdn]
  have hnames := names_congr e
  have hedges := edges_congr e
  obtain ⟨nodes, names, edges⟩ := g
  obtain ⟨nodes', names', edges'⟩ := h
  simp only at hnodes hnames hedges
  rw [hnodes, hnames, hedges]

end Congr

end Graph

end DiffGraph
