import DiffGraph.Proofs.Graph.Replies

/-!
# What a difference appends

A difference is appended in two parts, each of which checks its operand on its own. `Appended` says
what one such part does to the graph. The opposite of the right operand is a node already when the
left operand is looked at, so that its index is accepted there as well, and stays behind if the left
operand is refused.
-/

namespace DiffGraph

namespace Graph

variable {V E : Type}

/-- A graph is another one with one more operator, connected to its operands, and nothing else
changed. -/
structure Appended (g : Graph V) (kind : Kind) (operands : List Nat) (h : Graph V) : Prop where
  size : h.size = g.size + 1
  kind? : ∀ m, h.kind? m = if m = g.size then some kind else g.kind? m
  value? : ∀ m, h.value? m = g.value? m
  deriv? : ∀ m, h.deriv? m = g.deriv? m
  inputsOf : ∀ m, h.inputsOf m = if m = g.size then operands else g.inputsOf m
  consumersOf : ∀ m, h.consumersOf m =
    g.consumersOf m ++ List.replicate (operands.count m) (g.size : Int)
  edges : h.edges.toList = g.edges.toList ++ operands.map fun a => (a, (g.size : Int))
  names : h.names = g.names

theorem appended_appendOperator (g : Graph V) (kind : Kind) {operands : List Nat}
    (ho : ∀ a ∈ operands, a < g.size) : g.Appended kind operands (g.appendOperator kind operands)
    where
  size := size_appendOperator g kind operands
  kind? := kind?_appendOperator g kind operands
  value? := value?_appendOperator g kind operands
  deriv? := deriv?_appendOperator g kind operands
  inputsOf := inputsOf_appendOperator g kind operands
  consumersOf := consumersOf_appendOperator g kind operands ho
  edges := edges_appendOperator g kind operands
  names := names_appendOperator g kind operands

/-- The operands that a new sum answers with. -/
theorem Appended.operands_binary {g h : Graph V} {op : Binary} {l r : Nat}
    (ha : g.Appended (.binary op) [l, r] h) :
    (h.operands g.size : Except (Fault E) (List Nat)) = .ok [l, r] := by
  have hk := ha.kind? g.size
  have hi := ha.inputsOf g.size
  rw [if_pos rfl] at hk hi
  unfold Graph.kind? at hk
  unfold Graph.inputsOf at hi
  cases hn : h.nodes[g.size]? with
  | none =>
      rw [hn] at hk
      cases hk
  | some node =>
      rw [hn] at hk hi
      rw [operands, application, hn]
      obtain ⟨k, v, d, inputs, consumers⟩ := node
      cases hk
      cases hi
      rfl

end Graph

open DiffGraph.Graph

variable {V E : Type}

/-- The three ways a difference can go. -/
theorem Action.sub_cases (g : Graph V) (i j : Int) :
    let reply := (Action.sub (.index i) (.index j) : Action V E Nat).run g
    (¬ (0 ≤ j ∧ j < g.size) ∧ reply.outcome = .error (.foreignIndex (.index j)) ∧
        reply.graph = g) ∨
      ∃ r : Nat, j = r ∧ r < g.size ∧ ∃ k, g.Appended (.unary .neg) [r] k ∧
        ((¬ (0 ≤ i ∧ i ≤ g.size) ∧ reply.outcome = .error (.foreignIndex (.index i)) ∧
            reply.graph = k) ∨
          ∃ l : Nat, i = l ∧ l ≤ g.size ∧ reply.outcome = .ok (g.size + 1) ∧
            k.Appended (.binary .add) [l, g.size] reply.graph) := by
  intro reply
  have hreply : reply = _ := Action.run_sub g (.index i) (.index j)
  rcases check_index (E := E) g j with ⟨r, hj, hr, hcheck⟩ | ⟨hj, hcheck⟩
  · have hmem : ∀ a ∈ [r], a < g.size := by simpa using hr
    have hk := appended_appendOperator g (.unary .neg) hmem
    refine .inr ⟨r, hj, hr, _, hk, ?_⟩
    simp only [hcheck, Action.run_binary] at hreply
    generalize g.appendOperator (.unary .neg) [r] = k at hk hreply
    have hsize : k.size = g.size + 1 := hk.size
    -- The opposite has the index that was the size of the graph.
    have hm : g.size < k.size := by omega
    have hcheckm : (k.check (.node g.size) : Except (Fault E) Nat) = .ok g.size := check_node hm
    rcases check_index (E := E) k i with ⟨l, hi, hl, hcheck'⟩ | ⟨hi, hcheck'⟩
    · rw [hcheck', hcheckm] at hreply
      refine .inr ⟨l, hi, by omega, by rw [hreply, hsize], ?_⟩
      rw [hreply]
      exact appended_appendOperator k (.binary .add) (by simp [hl, hm])
    · rw [hcheck', hcheckm] at hreply
      exact .inl ⟨by omega, by rw [hreply], by rw [hreply]⟩
  · rw [hcheck] at hreply
    exact .inl ⟨hj, by rw [hreply], by rw [hreply]⟩

/-- A difference is appended if and only if the right operand is a node and the left one is a node
or the index that the opposite of the right one is going to have. It then consists of two new nodes.
Where it is refused, the graph is as before or has the opposite of the right operand more. -/
theorem sub_appends_or_refuses (g : Graph V) (i j : Int) :
    let reply := (Action.sub (.index i) (.index j) : Action V E Nat).run g
    ((∃ a, reply.outcome = .ok a) ↔ (0 ≤ i ∧ i ≤ g.size) ∧ 0 ≤ j ∧ j < g.size) ∧
      (∀ a, reply.outcome = .ok a → a = g.size + 1 ∧ ∃ (l r : Nat) (k : Graph V), i = l ∧ j = r ∧
        g.Appended (.unary .neg) [r] k ∧ k.Appended (.binary .add) [l, g.size] reply.graph ∧
        ((Action.operands (.node a) : Action V E (List Nat)).run reply.graph).outcome =
          .ok [l, g.size]) ∧
      ∀ e, reply.outcome = .error e →
        (e = .foreignIndex (.index j) ∧ reply.graph = g) ∨
          ∃ r : Nat, j = r ∧ r < g.size ∧ e = .foreignIndex (.index i) ∧
            g.Appended (.unary .neg) [r] reply.graph := by
  intro reply
  rcases Action.sub_cases (E := E) g i j with
    ⟨hj, hout, hgraph⟩ | ⟨r, hj, hr, k, hk, ⟨hi, hout, hgraph⟩ | ⟨l, hi, hl, hout, ha⟩⟩
  · refine ⟨?_, ?_, ?_⟩ <;> simp only [reply, hout]
    · simp [hj]
    · simp
    · rintro e ⟨⟩
      exact .inl ⟨rfl, hgraph⟩
  · refine ⟨?_, ?_, ?_⟩ <;> simp only [reply, hout]
    · simp [hi]
    · simp
    · rintro e ⟨⟩
      exact .inr ⟨r, hj, hr, rfl, hgraph ▸ hk⟩
  · refine ⟨?_, ?_, ?_⟩ <;> simp only [reply, hout]
    · refine ⟨fun _ => by omega, fun _ => ⟨_, rfl⟩⟩
    · rintro a ⟨⟩
      have hlast : g.size + 1 < reply.graph.size := by rw [ha.size, hk.size]; omega
      refine ⟨rfl, l, r, k, hi, hj, hk, ha, ?_⟩
      rw [Action.operands, Action.run_read, check_node hlast, ← hk.size]
      exact ha.operands_binary
    · simp

/-- On a graph of one node the index 1 is accepted as a left operand, and a refused left operand
leaves the opposite of the right one behind. -/
theorem sub_of_foreign_left_operand :
    let g := ((Action.constant Except.ok 1 : Action Int String Nat).run Graph.empty).graph
    let early := (Action.sub (.index 1) (.index 0) : Action Int String Nat).run g
    let late := (Action.sub (.index 7) (.index 0) : Action Int String Nat).run g
    g.size = 1 ∧ early.outcome = .ok 2 ∧ early.graph.inputsOf 2 = [1, 1] ∧
      late.outcome = .error (.foreignIndex (.index 7)) ∧ late.graph.size = 2 := by
  refine ⟨rfl, rfl, rfl, rfl, rfl⟩

end DiffGraph
