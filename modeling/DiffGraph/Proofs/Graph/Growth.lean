import DiffGraph.Proofs.Graph.Fields

/-!
# How a graph grows

A leaf is appended on its own, an operator together with the edges from its operands.
`appendOperator` covers operators of any number of operands, so that what the edges do to the
three places where they are kept is said once. An operand that is given twice is connected twice.
-/

namespace DiffGraph

namespace Graph

variable {V E : Type}

/-- Connects operands to a node, in order. -/
def connectAll (g : Graph V) (target : Nat) : List Nat → Graph V
  | [] => g
  | a :: operands => (g.connect a target target).connectAll target operands

/-- Appends an operator with its operands. -/
def appendOperator (g : Graph V) (kind : Kind) (operands : List Nat) : Graph V :=
  (g.append (.fresh kind none)).connectAll g.size operands

/-! ## Appending a node -/

section Append

variable (g : Graph V) (node : Node V)

@[simp] theorem size_append : (g.append node).size = g.size + 1 := by
  simp [append, size]

theorem getElem?_nodes_append (m : Nat) :
    (g.append node).nodes[m]? = if m = g.size then some node else g.nodes[m]? := by
  rw [append, Array.getElem?_push]
  rfl

theorem value?_append (m : Nat) :
    (g.append node).value? m = if m = g.size then node.value else g.value? m := by
  rw [value?, getElem?_nodes_append]
  split <;> rfl

theorem deriv?_append (m : Nat) :
    (g.append node).deriv? m = if m = g.size then node.deriv else g.deriv? m := by
  rw [deriv?, getElem?_nodes_append]
  split <;> rfl

theorem kind?_append (m : Nat) :
    (g.append node).kind? m = if m = g.size then some node.kind else g.kind? m := by
  rw [kind?, getElem?_nodes_append]
  split <;> rfl

theorem inputsOf_append (m : Nat) :
    (g.append node).inputsOf m = if m = g.size then node.inputs else g.inputsOf m := by
  rw [inputsOf, getElem?_nodes_append]
  split <;> rfl

theorem consumersOf_append (m : Nat) :
    (g.append node).consumersOf m = if m = g.size then node.consumers else g.consumersOf m := by
  rw [consumersOf, getElem?_nodes_append]
  split <;> rfl

end Append

/-! ## Connecting an operand -/

section Connect

variable (g : Graph V) (source target : Nat) (written : Int)

/-- Connecting changes the operands of one node and the consumers of another, and nothing else of
any node. -/
theorem map_nodes_connect {β : Type} (field : Node V → β)
    (hi : ∀ node inputs, field { node with inputs := inputs } = field node)
    (hc : ∀ node consumers, field { node with consumers := consumers } = field node) (m : Nat) :
    ((g.connect source target written).nodes[m]?).map field = (g.nodes[m]?).map field := by
  have h₁ := map_nodes_modify g target
    (fun node => { node with inputs := node.inputs ++ [source] }) field (fun node => hi node _) m
  have h₂ := map_nodes_modify
    (g.modify target fun node => { node with inputs := node.inputs ++ [source] }) source
    (fun node => { node with consumers := node.consumers ++ [written] }) field
    (fun node => hc node _) m
  exact h₂.trans h₁

@[simp] theorem size_connect : (g.connect source target written).size = g.size := by
  simp [connect, modify, size]

@[simp] theorem names_connect : (g.connect source target written).names = g.names := rfl

@[simp] theorem edges_connect :
    (g.connect source target written).edges = g.edges.push (source, written) := rfl

@[simp] theorem value?_connect (m : Nat) :
    (g.connect source target written).value? m = g.value? m := by
  have h := map_nodes_connect g source target written Node.value (fun _ _ => rfl) (fun _ _ => rfl) m
  rw [value?_eq_join, value?_eq_join, h]

@[simp] theorem deriv?_connect (m : Nat) :
    (g.connect source target written).deriv? m = g.deriv? m := by
  have h := map_nodes_connect g source target written Node.deriv (fun _ _ => rfl) (fun _ _ => rfl) m
  rw [deriv?_eq_join, deriv?_eq_join, h]

@[simp] theorem kind?_connect (m : Nat) :
    (g.connect source target written).kind? m = g.kind? m :=
  map_nodes_connect g source target written Node.kind (fun _ _ => rfl) (fun _ _ => rfl) m

/-- The first half of connecting: the target gets a further operand. -/
theorem inputsOf_modify (ht : target < g.size) (m : Nat) :
    (g.modify target fun node => { node with inputs := node.inputs ++ [source] }).inputsOf m =
      if m = target then g.inputsOf m ++ [source] else g.inputsOf m := by
  rw [inputsOf, getElem?_nodes_modify]
  by_cases h : m = target
  · subst h
    have hm : m < g.nodes.size := ht
    simp [inputsOf, hm]
  · simp [inputsOf, h]

/-- The second half of connecting: the source gets a further consumer. -/
theorem consumersOf_modify (hs : source < g.size) (m : Nat) :
    (g.modify source fun node =>
        { node with consumers := node.consumers ++ [written] }).consumersOf m =
      if m = source then g.consumersOf m ++ [written] else g.consumersOf m := by
  rw [consumersOf, getElem?_nodes_modify]
  by_cases h : m = source
  · subst h
    have hm : m < g.nodes.size := hs
    simp [consumersOf, hm]
  · simp [consumersOf, h]

theorem inputsOf_connect (ht : target < g.size) (m : Nat) :
    (g.connect source target written).inputsOf m =
      if m = target then g.inputsOf m ++ [source] else g.inputsOf m := by
  rw [← inputsOf_modify g source target ht m]
  exact congrArg (Option.getD · []) (map_nodes_modify _ source
    (fun node => { node with consumers := node.consumers ++ [written] }) Node.inputs
    (fun _ => rfl) m)

theorem consumersOf_connect (hs : source < g.size) (m : Nat) :
    (g.connect source target written).consumersOf m =
      if m = source then g.consumersOf m ++ [written] else g.consumersOf m := by
  have hs' : source <
      (g.modify target fun node => { node with inputs := node.inputs ++ [source] }).size := by
    rwa [size_modify]
  have hm : (g.modify target fun node =>
      { node with inputs := node.inputs ++ [source] }).consumersOf m = g.consumersOf m :=
    congrArg (Option.getD · []) (map_nodes_modify g target
      (fun node => { node with inputs := node.inputs ++ [source] }) Node.consumers
      (fun _ => rfl) m)
  rw [← hm]
  exact consumersOf_modify _ source written hs' m

end Connect

/-! ## Connecting all operands -/

section ConnectAll

variable (g : Graph V) (target : Nat) (operands : List Nat)

@[simp] theorem connectAll_nil : g.connectAll target [] = g := rfl

theorem connectAll_cons (a : Nat) :
    g.connectAll target (a :: operands) = (g.connect a target target).connectAll target operands :=
  rfl

@[simp] theorem size_connectAll : (g.connectAll target operands).size = g.size := by
  induction operands generalizing g with
  | nil => rfl
  | cons a operands ih => rw [connectAll_cons, ih, size_connect]

@[simp] theorem names_connectAll : (g.connectAll target operands).names = g.names := by
  induction operands generalizing g with
  | nil => rfl
  | cons a operands ih => rw [connectAll_cons, ih, names_connect]

theorem edges_connectAll :
    (g.connectAll target operands).edges.toList =
      g.edges.toList ++ operands.map fun a => (a, (target : Int)) := by
  induction operands generalizing g with
  | nil => simp
  | cons a operands ih => rw [connectAll_cons, ih, edges_connect]; simp

@[simp] theorem value?_connectAll (m : Nat) :
    (g.connectAll target operands).value? m = g.value? m := by
  induction operands generalizing g with
  | nil => rfl
  | cons a operands ih => rw [connectAll_cons, ih, value?_connect]

@[simp] theorem deriv?_connectAll (m : Nat) :
    (g.connectAll target operands).deriv? m = g.deriv? m := by
  induction operands generalizing g with
  | nil => rfl
  | cons a operands ih => rw [connectAll_cons, ih, deriv?_connect]

@[simp] theorem kind?_connectAll (m : Nat) :
    (g.connectAll target operands).kind? m = g.kind? m := by
  induction operands generalizing g with
  | nil => rfl
  | cons a operands ih => rw [connectAll_cons, ih, kind?_connect]

theorem inputsOf_connectAll (ht : target < g.size) (m : Nat) :
    (g.connectAll target operands).inputsOf m =
      if m = target then g.inputsOf m ++ operands else g.inputsOf m := by
  induction operands generalizing g with
  | nil => simp
  | cons a operands ih =>
      have hs : target < (g.connect a target target).size := by rwa [size_connect]
      rw [connectAll_cons, ih _ hs, inputsOf_connect g a target target ht]
      split <;> simp

theorem consumersOf_connectAll (ho : ∀ a ∈ operands, a < g.size) (m : Nat) :
    (g.connectAll target operands).consumersOf m =
      g.consumersOf m ++ List.replicate (operands.count m) (target : Int) := by
  induction operands generalizing g with
  | nil => simp
  | cons a operands ih =>
      have ha : a < g.size := ho a List.mem_cons_self
      have hs : ∀ b ∈ operands, b < (g.connect a target target).size := by
        intro b hb
        rw [size_connect]
        exact ho b (List.mem_cons_of_mem a hb)
      rw [connectAll_cons, ih _ hs, consumersOf_connect g a target target ha, List.count_cons]
      by_cases hm : m = a
      · simp [hm, List.replicate_succ]
      · have hm' : a ≠ m := fun e => hm e.symm
        simp [hm, hm']

end ConnectAll

/-! ## Appending an operator -/

section Operator

variable (g : Graph V) (kind : Kind) (operands : List Nat)

@[simp] theorem size_appendOperator : (g.appendOperator kind operands).size = g.size + 1 := by
  simp [appendOperator]

@[simp] theorem names_appendOperator : (g.appendOperator kind operands).names = g.names := by
  simp [appendOperator, append]

theorem edges_appendOperator :
    (g.appendOperator kind operands).edges.toList =
      g.edges.toList ++ operands.map fun a => (a, (g.size : Int)) := by
  rw [appendOperator, edges_connectAll]
  rfl

@[simp] theorem value?_appendOperator (m : Nat) :
    (g.appendOperator kind operands).value? m = g.value? m := by
  rw [appendOperator, value?_connectAll, value?_append]
  split
  · rename_i h
    rw [value?_eq_none_of_size_le (Nat.le_of_eq h.symm)]
    rfl
  · rfl

@[simp] theorem deriv?_appendOperator (m : Nat) :
    (g.appendOperator kind operands).deriv? m = g.deriv? m := by
  rw [appendOperator, deriv?_connectAll, deriv?_append]
  split
  · rename_i h
    rw [deriv?_eq_none_of_size_le (Nat.le_of_eq h.symm)]
    rfl
  · rfl

theorem kind?_appendOperator (m : Nat) :
    (g.appendOperator kind operands).kind? m = if m = g.size then some kind else g.kind? m := by
  rw [appendOperator, kind?_connectAll, kind?_append]
  rfl

theorem inputsOf_appendOperator (m : Nat) :
    (g.appendOperator kind operands).inputsOf m =
      if m = g.size then operands else g.inputsOf m := by
  have ht : g.size < (g.append (.fresh kind none)).size := by simp
  rw [appendOperator, inputsOf_connectAll _ _ _ ht, inputsOf_append]
  split <;> simp [Node.fresh]

theorem consumersOf_appendOperator (ho : ∀ a ∈ operands, a < g.size) (m : Nat) :
    (g.appendOperator kind operands).consumersOf m =
      g.consumersOf m ++ List.replicate (operands.count m) (g.size : Int) := by
  have hs : ∀ a ∈ operands, a < (g.append (.fresh kind none)).size := by
    intro a ha
    rw [size_append]
    exact Nat.lt_succ_of_lt (ho a ha)
  rw [appendOperator, consumersOf_connectAll _ _ _ hs, consumersOf_append]
  split
  · rename_i h
    rw [consumersOf_eq_nil_of_size_le (Nat.le_of_eq h.symm)]
    rfl
  · rfl

end Operator

/-! ## Appending a leaf -/

section Leaf

variable (g : Graph V) (kind : Kind) (v : Option V)

@[simp] theorem deriv?_append_fresh (m : Nat) :
    (g.append (.fresh kind v)).deriv? m = g.deriv? m := by
  rw [deriv?_append]
  split
  · rename_i h
    rw [deriv?_eq_none_of_size_le (Nat.le_of_eq h.symm)]
    rfl
  · rfl

@[simp] theorem inputsOf_append_fresh (m : Nat) :
    (g.append (.fresh kind v)).inputsOf m = g.inputsOf m := by
  rw [inputsOf_append]
  split
  · rename_i h
    rw [inputsOf_eq_nil_of_size_le (Nat.le_of_eq h.symm)]
    rfl
  · rfl

@[simp] theorem consumersOf_append_fresh (m : Nat) :
    (g.append (.fresh kind v)).consumersOf m = g.consumersOf m := by
  rw [consumersOf_append]
  split
  · rename_i h
    rw [consumersOf_eq_nil_of_size_le (Nat.le_of_eq h.symm)]
    rfl
  · rfl

end Leaf

end Graph

end DiffGraph
