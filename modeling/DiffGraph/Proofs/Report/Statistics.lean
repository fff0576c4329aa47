import DiffGraph.Proofs.Engine.Arena
import DiffGraph.Proofs.Graph.Lookup
import DiffGraph.Report.Statistics
import Mathlib.Algebra.BigOperators.Group.Finset.Piecewise
import Mathlib.Algebra.Order.Ring.Unbundled.Rat
import Mathlib.Order.Bounds.Basic

/-!
# The statistics agree with the structure

The statistics of a graph are counted in two runs, one over the list of edges and one over the tags
of the nodes. Where the graph is one that clients can build, the first gives the number of operands
and of consumers of each node, and the second as many operands as the operators take: the operands,
the consumers and the tags all add up to the number of edges.
-/

namespace DiffGraph

variable {D V E : Type}

namespace Statistics

/-! ## Occurrences -/

theorem getElem?_foldl_modify (ends : List Nat) (counts : Array Nat) (i : Nat) :
    (ends.foldl (fun counts i => counts.modify i (· + 1)) counts)[i]? =
      (counts[i]?).map (· + ends.count i) := by
  induction ends generalizing counts with
  | nil => simp
  | cons j ends ih =>
      rw [List.foldl_cons, ih, Array.getElem?_modify]
      by_cases hj : j = i
      · subst hj
        rw [if_pos rfl, Option.map_map, List.count_cons_self]
        exact congrArg (Option.map · _) (funext fun k => by simp; omega)
      · rw [if_neg hj, List.count_cons_of_ne hj]

theorem toList_occurrences (n : Nat) (ends : List Nat) :
    (occurrences n ends).toList = (List.range n).map fun i => ends.count i := by
  apply List.ext_getElem?
  intro i
  rw [Array.getElem?_toList, occurrences, getElem?_foldl_modify, Array.getElem?_replicate,
    List.getElem?_map]
  by_cases hi : i < n
  · simp [hi]
  · rw [if_neg hi, List.getElem?_eq_none (by simpa using hi)]
    rfl

/-! ## Greatest and mean -/

theorem greatest_mem {counts : List Nat} (hne : counts ≠ []) : greatest counts ∈ counts := by
  obtain ⟨m, hm⟩ := Option.isSome_iff_exists.1 (List.isSome_max?_iff.2 hne)
  rw [greatest, List.foldl_max, hm, Option.getD_some, Nat.zero_max]
  exact (List.max?_eq_some_iff.1 hm).1

theorem le_greatest {counts : List Nat} {k : Nat} (hk : k ∈ counts) : k ≤ greatest counts := by
  obtain ⟨m, hm⟩ := Option.isSome_iff_exists.1 (List.isSome_max?_iff.2 (List.ne_nil_of_mem hk))
  rw [greatest, List.foldl_max, hm, Option.getD_some, Nat.zero_max]
  exact (List.max?_eq_some_iff.1 hm).2 k hk

/-- The greatest of what falls to each of the nodes. -/
theorem isGreatest_greatest_map {n : Nat} (hn : 0 < n) (f : Nat → Nat) :
    IsGreatest {k | ∃ i < n, f i = k} (greatest ((List.range n).map f)) := by
  have hmem : ∀ k, k ∈ (List.range n).map f ↔ ∃ i < n, f i = k := fun k => by
    simp only [List.mem_map, List.mem_range]
  have hne : (List.range n).map f ≠ [] := by
    simpa using Nat.ne_of_gt hn
  exact ⟨(hmem _).1 (greatest_mem hne), fun k hk => le_greatest ((hmem k).2 hk)⟩

theorem mean_eq_div (counts : List Nat) : mean counts = (counts.sum : Rat) / counts.length := by
  rw [mean, total, ← List.sum_eq_foldl, Rat.mkRat_eq_div]
  rfl

theorem mean_map_range (n : Nat) (f : Nat → Nat) :
    mean ((List.range n).map f) = ((∑ i ∈ Finset.range n, f i : Nat) : Rat) / n := by
  rw [mean_eq_div, List.length_map, List.length_range]
  rfl

/-! ## Tallies -/

theorem map_fst_count (t : String) (c : List (String × Nat)) :
    (count t c).map Prod.fst =
      if t ∈ c.map Prod.fst then c.map Prod.fst else c.map Prod.fst ++ [t] := by
  induction c with
  | nil => rfl
  | cons e c ih =>
      rw [count]
      by_cases he : e.1 = t
      · simp [he]
      · simp only [if_neg he, List.map_cons, ih, List.mem_cons, Ne.symm he, false_or]
        split <;> rfl

theorem lookup_count (t s : String) (c : List (String × Nat)) :
    (count t c).lookup s = if s = t then some ((c.lookup t).getD 0 + 1) else c.lookup s := by
  induction c with
  | nil =>
      by_cases hs : s = t
      · subst hs
        simp [count, List.lookup_cons_self]
      · simp [count, hs, lookup_cons_ne hs]
  | cons e c ih =>
      obtain ⟨u, k⟩ := e
      rw [count]
      by_cases hu : u = t
      · subst hu
        by_cases hs : s = u
        · subst hs
          simp [List.lookup_cons_self]
        · simp [hs, lookup_cons_ne hs]
      · by_cases hs : s = u
        · subst hs
          simp [hu, List.lookup_cons_self]
        · simp [hu, lookup_cons_ne hs, lookup_cons_ne (Ne.symm hu), ih]

/-- One more of a tag adds the weight of the tag once. -/
theorem sum_map_count (weight : String → Nat) (t : String) (c : List (String × Nat)) :
    ((count t c).map fun e => e.2 * weight e.1).sum =
      (c.map fun e => e.2 * weight e.1).sum + weight t := by
  induction c with
  | nil => simp [count]
  | cons e c ih =>
      rw [count]
      by_cases he : e.1 = t
      · subst he
        simp [Nat.add_mul]
        omega
      · simp [he, ih, Nat.add_assoc]

theorem tally_append_singleton (tags : List String) (t : String) :
    tally (tags ++ [t]) = count t (tally tags) := by
  rw [tally, List.foldl_append]
  rfl

theorem mem_map_fst_tally {tags : List String} {t : String} :
    t ∈ (tally tags).map Prod.fst ↔ t ∈ tags := by
  induction tags using List.reverseRecOn with
  | nil => rfl
  | append_singleton tags u ih =>
      rw [tally_append_singleton, map_fst_count, List.mem_append, List.mem_singleton, ← ih]
      split
      · rename_i hu
        exact ⟨.inl, fun ht => ht.elim id fun ht => ht ▸ hu⟩
      · rw [List.mem_append, List.mem_singleton]

/-- A tag stands for the number of its occurrences. -/
theorem getD_lookup_tally (tags : List String) (t : String) :
    ((tally tags).lookup t).getD 0 = tags.count t := by
  induction tags using List.reverseRecOn with
  | nil => rfl
  | append_singleton tags u ih =>
      rw [tally_append_singleton, lookup_count, List.count_append]
      by_cases hu : t = u
      · subst hu
        simp [ih]
      · simp [hu, ih, Ne.symm hu]

theorem sum_map_tally (weight : String → Nat) (tags : List String) :
    ((tally tags).map fun e => e.2 * weight e.1).sum = (tags.map weight).sum := by
  induction tags using List.reverseRecOn with
  | nil => rfl
  | append_singleton tags t ih =>
      rw [tally_append_singleton, sum_map_count, ih, List.map_append, List.sum_append]
      simp

/-- A tag occurs before another one does, if that one occurs at all. -/
def Precedes (tags : List String) (t u : String) : Prop :=
  ∃ i : Nat, tags[i]? = some t ∧ ∀ j ≤ i, tags[j]? ≠ some u

theorem Precedes.ne {tags : List String} {t u : String} (h : Precedes tags t u) : t ≠ u := by
  obtain ⟨i, hi, hnot⟩ := h
  rintro rfl
  exact hnot i (Nat.le_refl i) hi

theorem Precedes.append {tags : List String} {t u : String} (h : Precedes tags t u)
    (more : List String) : Precedes (tags ++ more) t u := by
  obtain ⟨i, hi, hnot⟩ := h
  have hlt : i < tags.length := (List.getElem?_eq_some_iff.1 hi).1
  refine ⟨i, by rw [List.getElem?_append_left hlt, hi], fun j hj => ?_⟩
  rw [List.getElem?_append_left (Nat.lt_of_le_of_lt hj hlt)]
  exact hnot j hj

theorem precedes_append_singleton {tags : List String} {t u : String} (ht : t ∈ tags)
    (hu : u ∉ tags) : Precedes (tags ++ [u]) t u := by
  obtain ⟨i, hi⟩ := List.getElem?_of_mem ht
  have h : Precedes tags t u := ⟨i, hi, fun j _ hj => hu (List.mem_of_getElem? hj)⟩
  exact h.append [u]

/-- The tags stand in the order of their first occurrences. -/
theorem pairwise_tally (tags : List String) :
    ((tally tags).map Prod.fst).Pairwise (Precedes tags) := by
  induction tags using List.reverseRecOn with
  | nil => exact .nil
  | append_singleton tags u ih =>
      rw [tally_append_singleton, map_fst_count]
      have hbefore := ih.imp fun {_ _} h => h.append [u]
      split
      · exact hbefore
      · rename_i hu
        refine List.pairwise_append.2 ⟨hbefore, List.pairwise_singleton _ _, fun t ht w hw => ?_⟩
        rw [List.mem_singleton.1 hw]
        exact precedes_append_singleton (mem_map_fst_tally.1 ht) (mt mem_map_fst_tally.2 hu)

theorem mem_tally_iff {tags : List String} {t : String} {k : Nat} :
    (t, k) ∈ tally tags ↔ 0 < k ∧ k = tags.count t := by
  have hcount : ∀ k, (t, k) ∈ tally tags → k = tags.count t := by
    intro k hk
    have hnodup : ((tally tags).map Prod.fst).Nodup := (pairwise_tally tags).imp Precedes.ne
    rw [← getD_lookup_tally, lookup_of_mem hnodup hk, Option.getD_some]
  constructor
  · intro hk
    refine ⟨?_, hcount k hk⟩
    rw [hcount k hk]
    exact List.count_pos_iff.2 (mem_map_fst_tally.1 (List.mem_map_of_mem (f := Prod.fst) hk))
  · rintro ⟨hpos, rfl⟩
    obtain ⟨⟨t', k⟩, hk, rfl⟩ :=
      List.mem_map.1 (mem_map_fst_tally.2 (List.count_pos_iff.1 hpos))
    rwa [← hcount k hk]

/-- The number of operands that a tag stands for. -/
def operandsOf (tag : String) : Nat :=
  if (Unary.ofName? tag).isSome then 1 else if (Binary.ofName? tag).isSome then 2 else 0

theorem operandsOf_tag (k : Kind) : operandsOf k.tag = k.arity := by
  cases k with
  | const | var => decide
  | unary op => cases op <;> decide
  | binary op => cases op <;> decide

end Statistics

namespace Graph

open Statistics

variable {g : Graph V}

theorem map_tag_nodes (g : Graph V) :
    g.nodes.toList.map (·.kind.tag) = (List.range g.size).map g.tag := by
  apply List.ext_getElem?
  intro n
  rw [List.getElem?_map, List.getElem?_map, Array.getElem?_toList]
  by_cases hn : n < g.size
  · have hnode : g.nodes[n]? = some g.nodes[n] := Array.getElem?_eq_getElem hn
    rw [List.getElem?_range hn, Option.map_some, Graph.tag, kind?, hnode]
    rfl
  · have hnode : g.nodes[n]? = .none := Array.getElem?_eq_none (Nat.le_of_not_lt hn)
    rw [hnode, List.getElem?_eq_none (by simpa using hn)]
    rfl

/-! ## Fans -/

/-- The nodes at which the edges end, one for each operand of each node. -/
theorem WellFormed.filterMap_place (hg : g.WellFormed) :
    g.edges.toList.filterMap (fun e => g.place e.2) =
      (List.range g.size).flatMap fun n => List.replicate (g.inputsOf n).length n := by
  rw [hg.edges, List.filterMap_flatMap]
  refine List.flatMap_congr fun n hn => ?_
  rw [List.filterMap_map]
  have hplace : (fun e : Nat × Int => g.place e.2) ∘ (fun a => (a, (n : Int))) =
      some ∘ fun _ => n :=
    funext fun _ => place_natCast (List.mem_range.1 hn)
  rw [hplace, List.filterMap_eq_map, List.map_const']

theorem WellFormed.fanIns_eq (hg : g.WellFormed) :
    g.fanIns = (List.range g.size).map fun n => (g.inputsOf n).length := by
  rw [fanIns, toList_occurrences, hg.filterMap_place]
  refine List.map_congr_left fun n hn => ?_
  have hcount : ∀ m, (List.replicate (g.inputsOf m).length m).count n =
      if n = m then (g.inputsOf m).length else 0 := by
    intro m
    rw [List.count_replicate]
    exact if_congr (beq_iff_eq.trans eq_comm) rfl rfl
  calc ((List.range g.size).flatMap fun m => List.replicate (g.inputsOf m).length m).count n
      = ∑ m ∈ Finset.range g.size, if n = m then (g.inputsOf m).length else 0 := by
        rw [List.count_flatMap]
        exact congrArg List.sum (List.map_congr_left fun m _ => hcount m)
    _ = (g.inputsOf n).length := by
        rw [Finset.sum_ite_eq, if_pos (Finset.mem_range.2 (List.mem_range.1 hn))]

theorem WellFormed.length_consumersOf (hg : g.WellFormed) (n : Nat) :
    (g.consumersOf n).length = (g.edges.toList.map Prod.fst).count n := by
  rw [hg.consumers, List.length_map, List.count_eq_length_filter, List.filter_map, List.length_map]
  rfl

theorem WellFormed.fanOuts_eq (hg : g.WellFormed) :
    g.fanOuts = (List.range g.size).map fun n => (g.consumersOf n).length := by
  rw [fanOuts, toList_occurrences]
  exact List.map_congr_left fun n _ => (hg.length_consumersOf n).symm

theorem WellFormed.sum_inputsOf (hg : g.WellFormed) :
    ∑ n ∈ Finset.range g.size, (g.inputsOf n).length = g.edges.size := by
  rw [← Array.length_toList, hg.edges, List.length_flatMap]
  simp only [List.length_map]
  rfl

theorem WellFormed.sum_consumersOf (hg : g.WellFormed) :
    ∑ n ∈ Finset.range g.size, (g.consumersOf n).length = g.edges.size := by
  have hmem : ∀ n ∈ (g.edges.toList.map Prod.fst : Multiset Nat), n ∈ Finset.range g.size := by
    intro n hn
    obtain ⟨e, he, rfl⟩ := List.mem_map.1 (Multiset.mem_coe.1 hn)
    obtain ⟨m, -, hlt, hm⟩ := hg.edge_lt he
    exact Finset.mem_range.2 (Nat.lt_trans hlt hm)
  simp only [hg.length_consumersOf, ← Multiset.coe_count]
  rw [Multiset.sum_count_eq_card hmem, Multiset.coe_card, List.length_map, Array.length_toList]

/-! ## Operations -/

theorem count_map_tag (g : Graph V) (t : String) :
    ((List.range g.size).map g.tag).count t =
      ((Finset.range g.size).filter fun n => g.tag n = t).card := by
  rw [List.count, List.countP_map, List.countP_eq_length_filter]
  exact congrArg List.length (List.filter_congr fun n _ => beq_eq_decide _ _)

theorem getElem?_map_tag {n : Nat} {t : String} :
    ((List.range g.size).map g.tag)[n]? = some t ↔ n < g.size ∧ g.tag n = t := by
  rw [List.getElem?_map, Option.map_eq_some_iff]
  constructor
  · rintro ⟨m, hm, rfl⟩
    obtain ⟨hn, rfl⟩ := List.getElem?_eq_some_iff.1 hm
    rw [List.length_range] at hn
    simp [hn]
  · rintro ⟨hn, rfl⟩
    exact ⟨n, List.getElem?_range hn, rfl⟩

theorem precedes_map_tag {t u : String} (h : Precedes ((List.range g.size).map g.tag) t u) :
    ∃ n < g.size, g.tag n = t ∧ ∀ m ≤ n, g.tag m ≠ u := by
  obtain ⟨n, hn, hnot⟩ := h
  obtain ⟨hlt, ht⟩ := getElem?_map_tag.1 hn
  refine ⟨n, hlt, ht, fun m hm hu => hnot m hm ?_⟩
  exact getElem?_map_tag.2 ⟨Nat.lt_of_le_of_lt hm hlt, hu⟩

theorem WellFormed.operandsOf_tag_eq (hg : g.WellFormed) {n : Nat} (hn : n < g.size) :
    operandsOf (g.tag n) = (g.inputsOf n).length := by
  obtain ⟨k, hk⟩ := exists_kind? hn
  rw [Graph.tag, hk, hg.arity n k hk]
  exact operandsOf_tag k

/-- The tags, each with the operands it stands for, add up to the edges. -/
theorem WellFormed.sum_operandsOf_tally (hg : g.WellFormed) :
    ((tally ((List.range g.size).map g.tag)).map fun e => e.2 * operandsOf e.1).sum =
      g.edges.size := by
  rw [sum_map_tally, List.map_map, ← hg.sum_inputsOf]
  exact congrArg List.sum
    (List.map_congr_left fun n hn => hg.operandsOf_tag_eq (List.mem_range.1 hn))

theorem sum_tally (g : Graph V) :
    ((tally ((List.range g.size).map g.tag)).map Prod.snd).sum = g.size := by
  have h := sum_map_tally (fun _ => 1) ((List.range g.size).map g.tag)
  simpa [Function.comp_def] using h

end Graph

open DiffGraph.Graph

/-- After any session that leaves a node, the statistics agree with the structure of the graph: the
edges are as many as the operands of all nodes and as their consumers, the greatest fans are the
greatest numbers of these, and the means are what falls to each node. The operations list every tag
with the number of the nodes that carry it, in the order of the first nodes; the numbers add up to
the nodes, and weighted with the operands that a tag stands for, to the edges. -/
theorem statistics_of_structure (conversion : Conversion D V E) (rules : Rules V E)
    (calls : List (Call D)) (hne : 0 < (Graph.empty.after conversion rules calls).size) :
    let g := Graph.empty.after conversion rules calls
    let s := g.statistics
    (∀ n < g.size,
      ((Action.operands (.node n) : Action V E (List Nat)).run g).outcome = .ok (g.inputsOf n) ∧
        ((Action.consumers (.node n) : Action V E (List Int)).run g).outcome =
          .ok (g.consumersOf n)) ∧
    s.nodes = g.size ∧
    s.edges = ∑ n ∈ Finset.range g.size, (g.inputsOf n).length ∧
    s.edges = ∑ n ∈ Finset.range g.size, (g.consumersOf n).length ∧
    IsGreatest {k | ∃ n < g.size, (g.inputsOf n).length = k} s.maxFanIn ∧
    IsGreatest {k | ∃ n < g.size, (g.consumersOf n).length = k} s.maxFanOut ∧
    s.meanFanIn = (s.edges : Rat) / s.nodes ∧ s.meanFanOut = (s.edges : Rat) / s.nodes ∧
    (∀ t k, (t, k) ∈ s.operations ↔
      0 < k ∧ k = ((Finset.range g.size).filter fun n => g.tag n = t).card) ∧
    ((s.operations.map Prod.fst).Pairwise fun t u =>
      ∃ n < g.size, g.tag n = t ∧ ∀ m ≤ n, g.tag m ≠ u) ∧
    (s.operations.map Prod.snd).sum = s.nodes ∧
    (s.operations.map fun e => e.2 * Statistics.operandsOf e.1).sum = s.edges := by
  intro g s
  have hg : g.WellFormed := wellFormed_after conversion rules calls
  have hs : s = _ := if_neg (Nat.ne_of_gt hne)
  have hops : s.operations = Statistics.tally ((List.range g.size).map g.tag) := by
    rw [hs, ← map_tag_nodes]
  have hnodes : s.nodes = g.size := by rw [hs]
  have hedges : s.edges = g.edges.size := by rw [hs]
  refine ⟨fun n hn => ⟨hg.outcome_operands hn, outcome_consumers hn⟩, hnodes, ?_, ?_, ?_, ?_, ?_,
    ?_, fun t k => ?_, ?_, ?_, ?_⟩
  · rw [hedges, hg.sum_inputsOf]
  · rw [hedges, hg.sum_consumersOf]
  · rw [hs, hg.fanIns_eq]
    exact Statistics.isGreatest_greatest_map hne _
  · rw [hs, hg.fanOuts_eq]
    exact Statistics.isGreatest_greatest_map hne _
  · rw [hs, hg.fanIns_eq, Statistics.mean_map_range, hg.sum_inputsOf]
  · rw [hs, hg.fanOuts_eq, Statistics.mean_map_range, hg.sum_consumersOf]
  · rw [hops, Statistics.mem_tally_iff, count_map_tag]
  · rw [hops]
    exact (Statistics.pairwise_tally _).imp precedes_map_tag
  · rw [hops, hnodes, g.sum_tally]
  · rw [hops, hedges, hg.sum_operandsOf_tally]

/-- The statistics of `x + x - x * x`, where four edges start at `x` and a variable is unused. -/
theorem statistics_of_repeated_operand :
    let g := Graph.empty.after Conversion.whole Rules.whole
      [.constant .scalar 3, .emptyVariable "unused", .binary .add (.node 0) (.node 0),
        .binary .mul (.node 0) (.node 0), .sub (.node 2) (.node 3)]
    let s := g.statistics
    s.operations = [("constant", 1), ("variable", 1), ("add", 2), ("mul", 1), ("neg", 1)] ∧
      ((Finset.range g.size).filter fun n => g.tag n = "add").card = 2 ∧
      ∑ n ∈ Finset.range g.size, (g.inputsOf n).length = 7 ∧
      ∑ n ∈ Finset.range g.size, (g.consumersOf n).length = 7 ∧
      s.maxFanIn = 2 ∧ IsGreatest {k | ∃ n < g.size, (g.consumersOf n).length = k} 4 ∧
      s.meanFanIn = 7 / 6 ∧ s.meanFanOut = 7 / 6 := by
  intro g s
  have hedges : s.edges = 7 := by decide +kernel
  have hnodes : s.nodes = 6 := by decide +kernel
  have hout : s.maxFanOut = 4 := by decide +kernel
  have hops : s.operations =
      [("constant", 1), ("variable", 1), ("add", 2), ("mul", 1), ("neg", 1)] := by decide +kernel
  obtain ⟨-, -, hin, hto, -, hgreatest, hmean, hmean', hcount, -, -, -⟩ :=
    statistics_of_structure Conversion.whole Rules.whole
      [.constant .scalar 3, .emptyVariable "unused", .binary .add (.node 0) (.node 0),
        .binary .mul (.node 0) (.node 0), .sub (.node 2) (.node 3)] (by decide +kernel)
  have hadd := ((hcount "add" 2).1 (by rw [hops]; decide)).2
  refine ⟨hops, hadd.symm, hin.symm.trans hedges, hto.symm.trans hedges, by decide +kernel,
    hout ▸ hgreatest, ?_, ?_⟩
  · rw [hmean, hedges, hnodes]
    rfl
  · rw [hmean', hedges, hnodes]
    rfl

end DiffGraph
