import DiffGraph.Operator.Rules
import DiffGraph.Proofs.Graph.WellFormed
import DiffGraph.Proofs.Outcomes
import Mathlib.Logic.Relation

/-!
# The expression tree of a node

Unfolded from one of its nodes, a calculation graph is an expression tree; a node that is shared
occurs in the tree once for every path of operands that leads to it. The value of a tree is the
plain recursion over it, left operand first, with a value or a fault at each leaf.
-/

namespace DiffGraph

/-- An expression tree, with the node that each place comes from. -/
inductive Unfolding where
  | leaf (n : Nat)
  | unary (n : Nat) (op : Unary) (arg : Unfolding)
  | binary (n : Nat) (op : Binary) (lhs rhs : Unfolding)

namespace Unfolding

variable {V E : Type}

/-- The value of a tree, computed from left to right with the first failure kept. -/
def value (rules : Rules V E) (leaf : Nat → Except (Fault E) V) :
    Unfolding → Except (Fault E) V
  | .leaf n => leaf n
  | .unary _ op t => do
    let x ← t.value rules leaf
    (rules.unary op x).mapError .rule
  | .binary _ op l r => do
    let x ← l.value rules leaf
    let y ← r.value rules leaf
    (rules.binary op x y).mapError .rule

/-- The nodes at the leaves, from left to right. -/
def leaves : Unfolding → List Nat
  | .leaf n => [n]
  | .unary _ _ t => t.leaves
  | .binary _ _ l r => l.leaves ++ r.leaves

theorem value_congr (rules : Rules V E) {leaf leaf' : Nat → Except (Fault E) V} {t : Unfolding}
    (e : ∀ n ∈ t.leaves, leaf n = leaf' n) : t.value rules leaf = t.value rules leaf' := by
  induction t with
  | leaf n => exact e n List.mem_cons_self
  | unary n op t ih => rw [value, value, ih e]
  | binary n op l r ihl ihr =>
      rw [value, value, ihl fun n hn => e n (List.mem_append_left _ hn),
        ihr fun n hn => e n (List.mem_append_right _ hn)]

end Unfolding

namespace Graph

variable {V E : Type}

/-- A node takes another one as an operand. -/
def Uses (g : Graph V) (n a : Nat) : Prop := a ∈ g.inputsOf n

/-- Following operands leads from a node to another one. -/
def Reaches (g : Graph V) : Nat → Nat → Prop := Relation.ReflTransGen g.Uses

theorem Reaches.lt_size {g : Graph V} {n m : Nat} (hr : g.Reaches n m) (hg : g.WellFormed)
    (hn : n < g.size) : m < g.size := by
  induction hr with
  | refl => exact hn
  | tail _ hu _ =>
      obtain ⟨hlt, hsize⟩ := hg.lt_size_of_mem_inputsOf hu
      exact Nat.lt_trans hlt hsize

theorem reaches_head_iff {g : Graph V} {n m : Nat} :
    g.Reaches n m ↔ n = m ∨ ∃ a ∈ g.inputsOf n, g.Reaches a m :=
  Relation.ReflTransGen.cases_head_iff

theorem reaches_congr {g h : Graph V} (e : h.skeleton = g.skeleton) {n m : Nat} :
    h.Reaches n m ↔ g.Reaches n m := by
  have huses : h.Uses = g.Uses := by
    funext a b
    rw [Uses, Uses, inputsOf_congr e]
  rw [Reaches, Reaches, huses]

/-- The tree that a node of a graph unfolds to. -/
inductive Unfolds (g : Graph V) : Nat → Unfolding → Prop
  | leaf {n : Nat} :
      g.kind? n = some .const ∨ g.kind? n = some .var → Unfolds g n (.leaf n)
  | unary {n a : Nat} {op : Unary} {t : Unfolding} :
      g.kind? n = some (.unary op) → g.inputsOf n = [a] → Unfolds g a t →
      Unfolds g n (.unary n op t)
  | binary {n l r : Nat} {op : Binary} {s t : Unfolding} :
      g.kind? n = some (.binary op) → g.inputsOf n = [l, r] → Unfolds g l s → Unfolds g r t →
      Unfolds g n (.binary n op s t)

section

variable {g h : Graph V} {n : Nat} {s t : Unfolding}

theorem Ascending.exists_unfolds (hg : g.Ascending) (ho : g.Supplied) (hn : n < g.size) :
    ∃ t, g.Unfolds n t := by
  induction n using Nat.strongRecOn with
  | _ n ih =>
  obtain ⟨k, hk⟩ := exists_kind? hn
  cases k with
  | const => exact ⟨_, .leaf (.inl hk)⟩
  | var => exact ⟨_, .leaf (.inr hk)⟩
  | unary op =>
      obtain ⟨a, ha⟩ := List.length_eq_one_iff.1 (ho n _ hk rfl)
      have hlt : a < n := hg n a (by simp [ha])
      obtain ⟨t, ht⟩ := ih a hlt (Nat.lt_trans hlt hn)
      exact ⟨_, .unary hk ha ht⟩
  | binary op =>
      obtain ⟨l, r, hlr⟩ := List.length_eq_two.1 (ho n _ hk rfl)
      have hl : l < n := hg n l (by simp [hlr])
      have hr : r < n := hg n r (by simp [hlr])
      obtain ⟨s, hs⟩ := ih l hl (Nat.lt_trans hl hn)
      obtain ⟨t, ht⟩ := ih r hr (Nat.lt_trans hr hn)
      exact ⟨_, .binary hk hlr hs ht⟩

theorem WellFormed.exists_unfolds (hg : g.WellFormed) (hn : n < g.size) :
    ∃ t, g.Unfolds n t :=
  hg.ascending.exists_unfolds hg.supplied hn

theorem Unfolds.unique (hs : g.Unfolds n s) (ht : g.Unfolds n t) : s = t := by
  induction hs generalizing t with
  | leaf hk =>
      cases ht with
      | leaf => rfl
      | unary hk' => rcases hk with hk | hk <;> simp [hk'] at hk
      | binary hk' => rcases hk with hk | hk <;> simp [hk'] at hk
  | unary hk hi _ ih =>
      cases ht with
      | leaf hk' => rcases hk' with hk' | hk' <;> simp [hk'] at hk
      | unary hk' hi' ht =>
          rw [hk, Option.some.injEq, Kind.unary.injEq] at hk'
          rw [hi, List.cons.injEq] at hi'
          obtain ⟨rfl, -⟩ := hi'
          rw [hk', ih ht]
      | binary hk' => simp [hk'] at hk
  | binary hk hi _ _ ihl ihr =>
      cases ht with
      | leaf hk' => rcases hk' with hk' | hk' <;> simp [hk'] at hk
      | unary hk' => simp [hk'] at hk
      | binary hk' hi' hs ht =>
          rw [hk, Option.some.injEq, Kind.binary.injEq] at hk'
          rw [hi, List.cons.injEq, List.cons.injEq] at hi'
          obtain ⟨rfl, rfl, -⟩ := hi'
          rw [hk', ihl hs, ihr ht]

theorem Unfolds.eq_leaf (ht : g.Unfolds n t)
    (ha : (g.application n : Except (Fault E) Application) = .ok .leaf) : t = .leaf n :=
  ht.unique (.leaf (application_eq_leaf_iff.1 ha))

theorem Unfolds.eq_unary (ht : g.Unfolds n t) {op : Unary} {a : Nat}
    (ha : (g.application n : Except (Fault E) Application) = .ok (.unary op a)) :
    ∃ s, t = .unary n op s ∧ g.Unfolds a s := by
  obtain ⟨hk, hi⟩ := application_eq_unary_iff.1 ha
  cases ht with
  | leaf hk' => rcases hk' with hk' | hk' <;> simp [hk'] at hk
  | @unary _ a' op' s hk' hi' hs =>
      have hop : op' = op := by simpa [hk'] using hk
      have ha' : a' = a := by simpa [hi'] using hi
      exact ⟨s, by rw [hop], ha' ▸ hs⟩
  | binary hk' => simp [hk'] at hk

theorem Unfolds.eq_binary (ht : g.Unfolds n t) {op : Binary} {l r : Nat}
    (ha : (g.application n : Except (Fault E) Application) = .ok (.binary op l r)) :
    ∃ s u, t = .binary n op s u ∧ g.Unfolds l s ∧ g.Unfolds r u := by
  obtain ⟨hk, hi⟩ := application_eq_binary_iff.1 ha
  cases ht with
  | leaf hk' => rcases hk' with hk' | hk' <;> simp [hk'] at hk
  | unary hk' => simp [hk'] at hk
  | @binary _ l' r' op' s u hk' hi' hs hu =>
      have hop : op' = op := by simpa [hk'] using hk
      have hlr : l' = l ∧ r' = r := by simpa [hi'] using hi
      exact ⟨s, u, by rw [hop], hlr.1 ▸ hs, hlr.2 ▸ hu⟩

theorem Unfolds.congr (e : h.skeleton = g.skeleton) (ht : g.Unfolds n t) : h.Unfolds n t := by
  induction ht with
  | leaf hk => exact .leaf (by rwa [kind?_congr e])
  | unary hk hi _ ih => exact .unary (by rwa [kind?_congr e]) (by rwa [inputsOf_congr e]) ih
  | binary hk hi _ _ ihl ihr =>
      exact .binary (by rwa [kind?_congr e]) (by rwa [inputsOf_congr e]) ihl ihr

theorem Unfolds.kind?_of_mem_leaves (ht : g.Unfolds n t) {m : Nat} (hm : m ∈ t.leaves) :
    g.kind? m = some .const ∨ g.kind? m = some .var := by
  induction ht with
  | leaf hk => rwa [List.mem_singleton.1 hm]
  | unary _ _ _ ih => exact ih hm
  | binary _ _ _ _ ihl ihr =>
      rcases List.mem_append.1 hm with hm | hm
      · exact ihl hm
      · exact ihr hm

/-- The leaves of a tree are the leaves that its node reaches. -/
theorem Unfolds.mem_leaves_iff (ht : g.Unfolds n t) (hg : g.WellFormed) {m : Nat} :
    m ∈ t.leaves ↔ (g.kind? m = some .const ∨ g.kind? m = some .var) ∧ g.Reaches n m := by
  induction ht with
  | @leaf n hk =>
      have hi := hg.inputsOf_of_leaf (E := Empty) (application_eq_leaf_iff.2 hk)
      rw [Unfolding.leaves, List.mem_singleton, reaches_head_iff, hi]
      constructor
      · rintro rfl
        exact ⟨hk, .inl rfl⟩
      · rintro ⟨-, h | ⟨a, ha, -⟩⟩
        · exact h.symm
        · cases ha
  | @unary n a op t hk hi _ ih =>
      rw [Unfolding.leaves, ih, reaches_head_iff (n := n), hi]
      constructor
      · rintro ⟨hm, hr⟩
        exact ⟨hm, .inr ⟨a, List.mem_singleton_self a, hr⟩⟩
      · rintro ⟨hm, rfl | ⟨b, hb, hr⟩⟩
        · rw [hk] at hm
          rcases hm with hm | hm <;> cases hm
        · rw [List.mem_singleton.1 hb] at hr
          exact ⟨hm, hr⟩
  | @binary n l r op s t hk hi _ _ ihl ihr =>
      rw [Unfolding.leaves, List.mem_append, ihl, ihr, reaches_head_iff (n := n), hi, ← and_or_left]
      constructor
      · rintro ⟨hm, hr | hr⟩
        · exact ⟨hm, .inr ⟨l, by simp, hr⟩⟩
        · exact ⟨hm, .inr ⟨r, by simp, hr⟩⟩
      · rintro ⟨hm, rfl | ⟨b, hb, hr⟩⟩
        · rw [hk] at hm
          rcases hm with hm | hm <;> cases hm
        · simp only [List.mem_cons, List.not_mem_nil, or_false] at hb
          rcases hb with rfl | rfl
          · exact ⟨hm, .inl hr⟩
          · exact ⟨hm, .inr hr⟩

end

end Graph

end DiffGraph
