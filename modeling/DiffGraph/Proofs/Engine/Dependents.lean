import DiffGraph.Proofs.Engine.Invalidation
import DiffGraph.Proofs.Graph.Growth
import DiffGraph.Proofs.Graph.Replies
import Mathlib.Data.Set.Card

/-!
# An invalidation meets every dependent once

The dependents of a node are the nodes downstream of it; the node itself is one of them if it lies
on a circle. An invalidation drops the values of the operators among them, leaves all else of the
graph as it is and reports how many dependents there are. On a circle the search ends because no
node is met twice: the bound that it is run with is never reached.
-/

namespace DiffGraph

namespace Graph

variable {V E : Type}

/-- The nodes to which one or more edges lead from a node. -/
def dependents (g : Graph V) (n : Nat) : Set Nat := {m | g.Downstream n m}

theorem consumersValid_iff {g : Graph V} :
    g.ConsumersValid ↔ ∀ a < g.size, ∀ i ∈ g.consumersOf a, 0 ≤ i ∧ i < g.size := by
  constructor
  · intro hg a _ i hi
    obtain ⟨m, rfl, hm⟩ := hg a i hi
    omega
  · intro hg a i hi
    have ha : a < g.size := by
      by_contra ha
      rw [consumersOf_eq_nil_of_size_le (Nat.le_of_not_lt ha)] at hi
      cases hi
    obtain ⟨h₀, h₁⟩ := hg a ha i hi
    exact ⟨i.toNat, by omega, by omega⟩

instance (g : Graph V) : Decidable g.ConsumersValid := decidable_of_iff _ consumersValid_iff.symm

namespace Searching

variable {g h : Graph V} {n : Nat} {seen : List Int}

/-- The nodes that a finished search has met are the dependents. -/
theorem dependents_eq (hs : g.Searching n [] h seen) :
    g.dependents n = (seen.map Int.toNat).toFinset := by
  ext m
  simp only [dependents, Set.mem_ofPred_eq, ← hs.mem_iff, List.coe_toFinset, List.mem_map]
  constructor
  · intro hm
    exact ⟨m, hm, Int.toNat_natCast m⟩
  · rintro ⟨i, hi, rfl⟩
    obtain ⟨k, rfl, -⟩ := hs.sound i (.inl hi)
    exact hi

theorem nodup_map_toNat (hs : g.Searching n [] h seen) : (seen.map Int.toNat).Nodup := by
  refine hs.nodup.map_on fun i hi j hj hij => ?_
  obtain ⟨k, rfl, -⟩ := hs.sound i (.inl hi)
  obtain ⟨l, rfl, -⟩ := hs.sound j (.inl hj)
  rw [Int.toNat_natCast, Int.toNat_natCast] at hij
  rw [hij]

theorem finite_dependents (hs : g.Searching n [] h seen) : (g.dependents n).Finite := by
  rw [hs.dependents_eq]
  exact Finset.finite_toSet _

theorem ncard_dependents (hs : g.Searching n [] h seen) :
    (g.dependents n).ncard = seen.length := by
  rw [hs.dependents_eq, Set.ncard_coe_finset, List.toFinset_card_of_nodup hs.nodup_map_toNat,
    List.length_map]

end Searching

end Graph

open DiffGraph.Graph

variable {V E : Type}

/-- A node that was met before is passed over. -/
theorem invalidateStack_cons_of_mem {fresh : Nat} {i : Int} {stack seen : List Int} {h : Graph V}
    (hi : seen.contains i) :
    (invalidateStack fresh (i :: stack) h seen : Invalidation V E) =
      invalidateStack fresh stack h seen := by
  conv_lhs => unfold invalidateStack
  rw [if_pos hi]

/-- A node that is met for the first time is put among the nodes met. -/
theorem invalidateStack_cons_of_not_mem {fresh n m : Nat} {i : Int} {stack seen : List Int}
    {h : Graph V} (hi : ¬ seen.contains i) (hn : h.place i = some n)
    (hm : ((h.dropComputed n).check (.index i) : Except (Fault E) Nat) = .ok m) :
    (invalidateStack (fresh + 1) (i :: stack) h seen : Invalidation V E) =
      invalidateStack fresh (((h.dropComputed n).consumersOf m).reverse ++ stack)
        (h.dropComputed n) (i :: seen) := by
  conv_lhs => unfold invalidateStack
  rw [if_neg hi]
  simp only [hn, hm]

/-- A search that comes to a good end is the same under any larger bound. -/
theorem invalidateStack_add (k fresh : Nat) (stack : List Int) (h : Graph V) (seen : List Int)
    (hok : (invalidateStack fresh stack h seen : Invalidation V E).outcome = .ok ()) :
    (invalidateStack (fresh + k) stack h seen : Invalidation V E) =
      invalidateStack fresh stack h seen := by
  fun_induction invalidateStack (V := V) (E := E) fresh stack h seen with
  | case1 => rw [invalidateStack]
  | case2 fresh i stack h seen hi ih => rw [invalidateStack_cons_of_mem hi, ih hok]
  | case3 i stack h seen hi fresh n hn h' m hm ih =>
      rw [Nat.succ_add, invalidateStack_cons_of_not_mem hi hn hm, ih hok]
  | case4 => cases hok
  | case5 => cases hok

/-- On any graph whose edges end at nodes of it, an invalidation comes to an end that no larger
bound changes. It leaves the operators downstream of the node without a value, leaves all else as
it is, and reports the number of nodes downstream. -/
theorem invalidateNode_drops_dependents {g : Graph V} (hg : g.ConsumersValid) {n : Nat}
    (hn : n < g.size) :
    let reply := (Action.invalidateNode (.node n) : Action V E Unit).run g
    reply.outcome = .ok () ∧
      (∀ k, (invalidateStack (g.size + 1 + k) (g.consumersOf n).reverse g [] : Invalidation V E) =
        invalidate g n) ∧
      (∀ m ∈ g.dependents n, (g.kind? m).any Kind.isOperator → reply.graph.value? m = none) ∧
      (∀ m, ¬ (m ∈ g.dependents n ∧ (g.kind? m).any Kind.isOperator) →
        reply.graph.value? m = g.value? m) ∧
      (∀ m, reply.graph.deriv? m = g.deriv? m) ∧
      reply.graph.edges = g.edges ∧ reply.graph.names = g.names ∧
      reply.graph.skeleton = g.skeleton ∧
      (g.dependents n).Finite ∧
      reply.events = if (g.dependents n).ncard = 0 then []
        else [.invalidated (.node n) (g.dependents n).ncard] := by
  intro reply
  obtain ⟨hok, hs⟩ := searching_invalidate (E := E) hg n
  have hd := drops_invalidate (E := E) hg n
  have hreply : reply = ⟨.ok (), (invalidate g n : Invalidation V E).graph,
      if (g.dependents n).ncard = 0 then []
      else [.invalidated (.node n) (g.dependents n).ncard]⟩ := by
    simp only [reply, Action.run_invalidateNode, check_node hn, hok, hs.ncard_dependents,
      List.isEmpty_iff_length_eq_zero]
  rw [hreply]
  refine ⟨rfl, fun k => invalidateStack_add k _ _ _ _ hok, hd.dropped, fun m hm => ?_, hd.deriv?,
    edges_congr hd.skeleton, names_congr hd.skeleton, hd.skeleton, hs.finite_dependents, rfl⟩
  rw [not_and_or, Bool.not_eq_true] at hm
  exact hd.kept m hm

/-- A variable, its opposite and the square of that, from where an edge leads back to the opposite;
the square of the variable lies off this circle. -/
def circle : Graph Int :=
  ((((Graph.empty.append (.fresh .var (some 3))).appendOperator (.unary .neg) [0]).appendOperator
    (.binary .mul) [1, 1]).appendOperator (.unary .square) [0]).connect 2 1 1
    |>.withValue 1 (some (-3)) |>.withValue 2 (some 9) |>.withValue 3 (some 9)

/-- The two operators on a circle lose their values when one of them is invalidated. -/
theorem invalidateNode_on_circle :
    let reply := (Action.invalidateNode (.node 1) : Action Int String Unit).run circle
    circle.ConsumersValid ∧ 1 < circle.size ∧ circle.Downstream 1 1 ∧
      circle.value? 1 = some (-3) ∧ circle.value? 2 = some 9 ∧
      reply.graph.value? 1 = none ∧ reply.graph.value? 2 = none ∧
      reply.graph.value? 0 = some 3 := by
  intro reply
  have hvalid : circle.ConsumersValid := by decide +kernel
  have hlt : 1 < circle.size := by decide +kernel
  have h₂ : circle.Downstream 1 2 := .single (by unfold Feeds; decide +kernel)
  have h₁ : circle.Downstream 1 1 := h₂.tail (by unfold Feeds; decide +kernel)
  obtain ⟨-, -, hdropped, hkept, -⟩ := invalidateNode_drops_dependents (E := String) hvalid hlt
  refine ⟨hvalid, hlt, h₁, by decide +kernel, by decide +kernel,
    hdropped 1 h₁ (by decide +kernel), hdropped 2 h₂ (by decide +kernel), ?_⟩
  rw [hkept 0 fun h => absurd h.2 (by decide +kernel)]
  decide +kernel

end DiffGraph
