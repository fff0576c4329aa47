import DiffGraph.Proofs.Engine.Session
import DiffGraph.Proofs.Graph.Unfolding

/-!
# Gradients are sums over paths

A path is a list of positions: 0 stands for the left or only operand of a node and 1 for the right
one. The gradient that a reverse pass leaves at a node is the sum of what arrives along all paths
from the output to the node, added up from the left in the lexicographic order of the paths. No law
of addition is used.
-/

namespace DiffGraph

variable {D V E : Type} {rules : Rules V E}

namespace Graph

/-- The node that a path leads to. -/
def follow (g : Graph V) : Nat → List Nat → Option Nat
  | n, [] => some n
  | n, i :: path => (g.inputsOf n)[i]? >>= fun a => g.follow a path

/-- The gradient that arrives at the end of a path, by the derivative rules of the nodes on it. -/
def delivered (rules : Rules V E) (g : Graph V) : Nat → V → List Nat → Except (Fault E) V
  | _, d, [] => .ok d
  | n, d, i :: path => do
    match ← g.application n, i with
    | .unary op a, 0 =>
      let x ← g.operandValue a
      let d ← (rules.unaryPull op x d).mapError .rule
      g.delivered rules a d path
    | .binary op l r, 0 =>
      let x ← g.operandValue l
      let y ← g.operandValue r
      let (d, _) ← (rules.binaryPull op x y d).mapError .rule
      g.delivered rules l d path
    | .binary op l r, 1 =>
      let x ← g.operandValue l
      let y ← g.operandValue r
      let (_, d) ← (rules.binaryPull op x y d).mapError .rule
      g.delivered rules r d path
    | _, _ => .error .subscriptOutOfRange

variable {g h : Graph V} {n m : Nat} {d : V} {vs : List (Visit V)}

/-! ## Paths -/

theorem follow_append (g : Graph V) (p q : List Nat) (n : Nat) :
    g.follow n (p ++ q) = g.follow n p >>= fun m => g.follow m q := by
  induction p generalizing n with
  | nil => rfl
  | cons i p ih =>
      rw [List.cons_append, follow, follow]
      cases (g.inputsOf n)[i]? with
      | none => rfl
      | some a => exact ih a

theorem reaches_iff_exists_path : g.Reaches n m ↔ ∃ p, g.follow n p = some m := by
  constructor
  · intro hr
    induction hr with
    | refl => exact ⟨[], rfl⟩
    | @tail b a _ hu ih =>
        obtain ⟨p, hp⟩ := ih
        obtain ⟨i, hi⟩ := List.getElem?_of_mem hu
        refine ⟨p ++ [i], ?_⟩
        rw [follow_append, hp]
        simp [follow, hi]
  · rintro ⟨p, hp⟩
    induction p generalizing n with
    | nil =>
        cases hp
        exact .refl
    | cons i p ih =>
        obtain ⟨a, ha, hp⟩ := Option.bind_eq_some_iff.1 hp
        exact (Relation.ReflTransGen.single (List.mem_of_getElem? ha)).trans (ih hp)

/-! ## Visits along paths -/

/-- A visit is at the end of its path, with what arrives there. -/
theorem Visits.at_end (hv : Visits rules g n d vs) :
    ∀ v ∈ vs, g.follow n v.path = some v.node ∧ g.delivered rules n d v.path = .ok v.gradient := by
  induction hv with
  | leaf =>
      intro v hv
      rw [List.mem_singleton.1 hv]
      exact ⟨rfl, rfl⟩
  | @unary n a op d x da vs hl hx hp _ ih =>
      intro v hv
      rcases List.mem_cons.1 hv with rfl | hv
      · exact ⟨rfl, rfl⟩
      · obtain ⟨w, hw, rfl⟩ := List.mem_map.1 hv
        have hi := (application_eq_unary_iff.1 hl).2
        simp only [Visit.below, follow, hi, delivered, hl, operandValue_eq_ok_iff.2 hx, hp,
          Except.ok_bind, Except.mapError_ok]
        exact ih w hw
  | @binary n l r op d x y dl dr vs ws hl hx hy hp _ _ ih₁ ih₂ =>
      have hi := (application_eq_binary_iff.1 hl).2
      intro v hv
      rcases List.mem_cons.1 hv with rfl | hv
      · exact ⟨rfl, rfl⟩
      rcases List.mem_append.1 hv with hv | hv
      · obtain ⟨w, hw, rfl⟩ := List.mem_map.1 hv
        simp only [Visit.below, follow, hi, delivered, hl, operandValue_eq_ok_iff.2 hx,
          operandValue_eq_ok_iff.2 hy, hp, Except.ok_bind, Except.mapError_ok]
        exact ih₁ w hw
      · obtain ⟨w, hw, rfl⟩ := List.mem_map.1 hv
        simp only [Visit.below, follow, hi, delivered, hl, operandValue_eq_ok_iff.2 hx,
          operandValue_eq_ok_iff.2 hy, hp, Except.ok_bind, Except.mapError_ok]
        exact ih₂ w hw

theorem Visits.complete (hv : Visits rules g n d vs) (hg : g.WellFormed) {p : List Nat}
    (hp : g.follow n p = some m) : ∃ v ∈ vs, v.path = p ∧ v.node = m := by
  induction hv generalizing p with
  | @leaf n d hl =>
      have hi := hg.inputsOf_of_leaf hl
      cases p with
      | nil => exact ⟨_, List.mem_cons_self, rfl, Option.some.inj hp⟩
      | cons i p => simp [follow, hi] at hp
  | @unary n a op d x da vs hl _ _ _ ih =>
      have hi := (application_eq_unary_iff.1 hl).2
      rcases p with _ | ⟨_ | i, p⟩
      · exact ⟨_, List.mem_cons_self, rfl, Option.some.inj hp⟩
      · rw [follow, hi] at hp
        obtain ⟨v, hv, rfl, hm⟩ := ih hp
        exact ⟨v.below 0, List.mem_cons_of_mem _ (List.mem_map_of_mem hv), rfl, hm⟩
      · simp [follow, hi] at hp
  | @binary n l r op d x y dl dr vs ws hl _ _ _ _ _ ih₁ ih₂ =>
      have hi := (application_eq_binary_iff.1 hl).2
      rcases p with _ | ⟨_ | _ | i, p⟩
      · exact ⟨_, List.mem_cons_self, rfl, Option.some.inj hp⟩
      · rw [follow, hi] at hp
        obtain ⟨v, hv, rfl, hm⟩ := ih₁ hp
        exact ⟨v.below 0, List.mem_cons_of_mem _
          (List.mem_append_left _ (List.mem_map_of_mem hv)), rfl, hm⟩
      · rw [follow, hi] at hp
        obtain ⟨v, hv, rfl, hm⟩ := ih₂ hp
        exact ⟨v.below 1, List.mem_cons_of_mem _
          (List.mem_append_right _ (List.mem_map_of_mem hv)), rfl, hm⟩
      · simp [follow, hi] at hp

theorem pairwise_below {vs : List (Visit V)} (i : Nat)
    (h : vs.Pairwise fun v w => v.path < w.path) :
    (vs.map (Visit.below i)).Pairwise fun v w => v.path < w.path := by
  rw [List.pairwise_map]
  exact h.imp fun hlt => List.cons_lt_cons_iff.2 (.inr ⟨rfl, hlt⟩)

/-- The visits are made in the order of their paths. -/
theorem Visits.pairwise (hv : Visits rules g n d vs) :
    vs.Pairwise fun v w => v.path < w.path := by
  induction hv with
  | leaf => exact List.pairwise_singleton _ _
  | unary _ _ _ _ ih =>
      refine List.pairwise_cons.2 ⟨?_, pairwise_below 0 ih⟩
      intro v hv
      obtain ⟨w, -, rfl⟩ := List.mem_map.1 hv
      exact List.nil_lt_cons _ _
  | binary _ _ _ _ _ _ ih₁ ih₂ =>
      refine List.pairwise_cons.2 ⟨?_, List.pairwise_append.2
        ⟨pairwise_below 0 ih₁, pairwise_below 1 ih₂, ?_⟩⟩
      · intro v hv
        rcases List.mem_append.1 hv with hv | hv
        · obtain ⟨w, -, rfl⟩ := List.mem_map.1 hv
          exact List.nil_lt_cons _ _
        · obtain ⟨w, -, rfl⟩ := List.mem_map.1 hv
          exact List.nil_lt_cons _ _
      · intro v hv w hw
        obtain ⟨v, -, rfl⟩ := List.mem_map.1 hv
        obtain ⟨w, -, rfl⟩ := List.mem_map.1 hw
        exact List.cons_lt_cons_iff.2 (.inl Nat.zero_lt_one)

theorem Visits.lt_size (hv : Visits rules g n d vs) (hg : g.WellFormed) (hn : n < g.size) :
    ∀ v ∈ vs, v.node < g.size := by
  intro v hm
  obtain ⟨hp, -⟩ := hv.at_end v hm
  exact (reaches_iff_exists_path.2 ⟨v.path, hp⟩).lt_size hg hn

/-! ## What the visits of one node add up to -/

/-- What comes in at a node, visit by visit. -/
def arrivals (vs : List (Visit V)) (m : Nat) : List V :=
  (vs.filter fun v => v.node = m).map Visit.gradient

theorem arrivals_cons_self (v : Visit V) (vs : List (Visit V)) :
    arrivals (v :: vs) v.node = v.gradient :: arrivals vs v.node := by
  simp [arrivals]

theorem arrivals_cons_ne {v : Visit V} (hm : v.node ≠ m) (vs : List (Visit V)) :
    arrivals (v :: vs) m = arrivals vs m := by
  simp [arrivals, hm]

theorem arrivals_append (vs ws : List (Visit V)) (m : Nat) :
    arrivals (vs ++ ws) m = arrivals vs m ++ arrivals ws m := by
  simp [arrivals]

theorem arrivals_map_below (i : Nat) (vs : List (Visit V)) (m : Nat) :
    arrivals (vs.map (Visit.below i)) m = arrivals vs m := by
  simp only [arrivals, List.filter_map, List.map_map]
  rfl

/-- A gradient that is there already is added to from the right. -/
theorem accumulate_some {t : V} (ha : g.accumulate rules vs = .ok h)
    (hs : ∀ v ∈ vs, v.node < g.size) (ht : g.deriv? m = some t) :
    ∃ total, (arrivals vs m).foldlM rules.add t = .ok total ∧ h.deriv? m = some total := by
  induction vs generalizing g t with
  | nil =>
      cases ha
      exact ⟨t, rfl, ht⟩
  | cons v vs ih =>
      obtain ⟨s, hacc, ha⟩ := accumulate_cons_eq_ok_iff.1 ha
      have hs' : ∀ w ∈ vs, w.node < (g.withDeriv v.node (some s)).size := by
        intro w hw
        rw [size_withDeriv]
        exact hs w (List.mem_cons_of_mem v hw)
      by_cases hm : v.node = m
      · subst hm
        have hadd : rules.add t v.gradient = .ok s := by
          rw [accumulated, ht] at hacc
          exact Except.mapError_eq_ok_iff.1 hacc
        have hself := hs v List.mem_cons_self
        obtain ⟨total, hfold, hd⟩ := ih ha hs' (by rw [deriv?_withDeriv, if_pos ⟨rfl, hself⟩])
        refine ⟨total, ?_, hd⟩
        rw [arrivals_cons_self, List.foldlM_cons, hadd]
        exact hfold
      · rw [arrivals_cons_ne hm]
        exact ih ha hs' (by rw [deriv?_withDeriv, if_neg (fun h => hm h.1.symm), ht])

/-- Where there was no gradient, the first arrival is kept and the others are added to it. -/
theorem accumulate_none (ha : g.accumulate rules vs = .ok h)
    (hs : ∀ v ∈ vs, v.node < g.size) (hn : g.deriv? m = none) :
    (arrivals vs m = [] ∧ h.deriv? m = none) ∨
      ∃ c cs total, arrivals vs m = c :: cs ∧ cs.foldlM rules.add c = .ok total ∧
        h.deriv? m = some total := by
  induction vs generalizing g with
  | nil =>
      cases ha
      exact .inl ⟨rfl, hn⟩
  | cons v vs ih =>
      obtain ⟨s, hacc, ha⟩ := accumulate_cons_eq_ok_iff.1 ha
      have hs' : ∀ w ∈ vs, w.node < (g.withDeriv v.node (some s)).size := by
        intro w hw
        rw [size_withDeriv]
        exact hs w (List.mem_cons_of_mem v hw)
      by_cases hm : v.node = m
      · subst hm
        have hfirst : v.gradient = s := by
          rw [accumulated, hn] at hacc
          exact Except.ok.inj hacc
        have hself := hs v List.mem_cons_self
        obtain ⟨total, hfold, hd⟩ :=
          accumulate_some ha hs' (by rw [deriv?_withDeriv, if_pos ⟨rfl, hself⟩])
        rw [← hfirst] at hfold
        exact .inr ⟨v.gradient, _, total, arrivals_cons_self v vs, hfold, hd⟩
      · rw [arrivals_cons_ne hm]
        exact ih ha hs' (by rw [deriv?_withDeriv, if_neg (fun h => hm h.1.symm), hn])

/-! ## A whole pass -/

theorem mapM_delivered {us : List (Visit V)}
    (hu : ∀ v ∈ us, g.delivered rules n d v.path = .ok v.gradient) :
    (us.map Visit.path).mapM (g.delivered rules n d) = .ok (us.map Visit.gradient) := by
  induction us with
  | nil => rfl
  | cons v us ih =>
      rw [List.map_cons, List.mapM_cons, hu v List.mem_cons_self,
        ih fun w hw => hu w (List.mem_cons_of_mem v hw)]
      rfl

/-- What some visits leave at a node, in terms of the paths of those that went to it. -/
theorem accumulate_path_sum (hs : ∀ w ∈ vs, w.node < g.size)
    (hend : ∀ w ∈ vs, g.delivered rules n d w.path = .ok w.gradient)
    (ha : g.withoutDerivs.accumulate rules vs = .ok h) (m : Nat) :
    let paths := (vs.filter fun w => w.node = m).map Visit.path
    (paths = [] ∧ h.deriv? m = none) ∨
      ∃ c cs total, paths.mapM (g.delivered rules n d) = .ok (c :: cs) ∧
        cs.foldlM rules.add c = .ok total ∧ h.deriv? m = some total := by
  have hsize : ∀ w ∈ vs, w.node < g.withoutDerivs.size := by simpa using hs
  have hmap := mapM_delivered fun w hw => hend w (List.mem_of_mem_filter (p := (·.node = m)) hw)
  rcases accumulate_none ha hsize (deriv?_withoutDerivs g m) with ⟨hnil, hd⟩ |
    ⟨c, cs, total, harr, hfold, hd⟩
  · exact .inl ⟨by rw [List.map_eq_nil_iff.1 hnil]; rfl, hd⟩
  · exact .inr ⟨c, cs, total, hmap.trans (congrArg Except.ok harr), hfold, hd⟩

/-- The gradient at a node after a pass is the sum over all paths to it, if there are any. -/
theorem sweep_path_sum (hg : g.WellFormed) {v : V} (hn : n < g.size)
    (hok : (sweep rules g n v).outcome = .ok ()) (m : Nat) :
    ∃ paths, paths.Pairwise (· < ·) ∧ (∀ p, p ∈ paths ↔ g.follow n p = some m) ∧
      ((paths = [] ∧ (sweep rules g n v).graph.deriv? m = none) ∨
        ∃ c cs total, paths.mapM (g.delivered rules n (rules.seed v)) = .ok (c :: cs) ∧
          cs.foldlM rules.add c = .ok total ∧
          (sweep rules g n v).graph.deriv? m = some total) := by
  obtain ⟨vs, hv, ha, -⟩ := visits_of_sweep hok
  refine ⟨_, ?_, ?_, accumulate_path_sum (hv.lt_size hg hn) (fun w hw => (hv.at_end w hw).2) ha m⟩
  · rw [List.pairwise_map]
    exact hv.pairwise.filter _
  · intro p
    simp only [List.mem_map, List.mem_filter, decide_eq_true_eq]
    constructor
    · rintro ⟨w, ⟨hw, rfl⟩, rfl⟩
      exact (hv.at_end w hw).1
    · intro hp
      obtain ⟨w, hw, hpath, hnode⟩ := hv.complete hg hp
      exact ⟨w, ⟨hw, hnode⟩, hpath⟩

theorem isSome_deriv?_sweep_iff (hg : g.WellFormed) {v : V} (hn : n < g.size)
    (hok : (sweep rules g n v).outcome = .ok ()) (m : Nat) :
    ((sweep rules g n v).graph.deriv? m).isSome ↔ g.Reaches n m := by
  rw [reaches_iff_exists_path]
  obtain ⟨paths, -, hpaths, ⟨rfl, hd⟩ | ⟨c, cs, total, hmap, -, hd⟩⟩ := sweep_path_sum hg hn hok m
  · rw [hd]
    simpa using hpaths
  · rw [hd]
    refine iff_of_true rfl ?_
    cases paths with
    | nil => cases hmap
    | cons p paths => exact ⟨p, (hpaths p).1 List.mem_cons_self⟩

end Graph

open DiffGraph.Graph

/-- After a reverse pass from a node that did not fail, whatever was done before it, the nodes that
can be reached along operands have a gradient and no others; each gradient is the sum, from the
left, of what arrives along the paths to the node, in lexicographic order; and all the rest of the
graph is as before. -/
theorem evalDeriv_path_sum (conversion : Conversion D V E) (rules : Rules V E)
    (calls : List (Call D)) (n : Nat)
    (hok : ((Action.evalDeriv rules (.node n)).run
      (Graph.empty.after conversion rules calls)).outcome = .ok ()) :
    let g := Graph.empty.after conversion rules calls
    let g' := ((Action.evalDeriv rules (.node n)).run g).graph
    ∃ v, g.value? n = some v ∧ g'.withoutDerivs = g.withoutDerivs ∧
      (∀ m, (g'.deriv? m).isSome ↔ g.Reaches n m) ∧
      ∀ m, g.Reaches n m → ∃ (paths : List (List Nat)) (c : V) (cs : List V) (total : V),
        paths.Pairwise (· < ·) ∧ (∀ p, p ∈ paths ↔ g.follow n p = some m) ∧
        paths.mapM (g.delivered rules n (rules.seed v)) = .ok (c :: cs) ∧
        cs.foldlM rules.add c = .ok total ∧ g'.deriv? m = some total := by
  intro g g'
  have hg : g.WellFormed := wellFormed_after conversion rules calls
  obtain ⟨v, hv⟩ := Action.exists_value?_of_evalDeriv hok
  have hrun := Action.run_evalDeriv_node g rules hv
  have hg' : g' = (sweep rules g n v).graph := congrArg Reply.graph hrun
  have hsweep : (sweep rules g n v).outcome = .ok () :=
    (congrArg Reply.outcome hrun).symm.trans hok
  have hn := lt_size_of_value? hv
  rw [hg']
  refine ⟨v, hv, withoutDerivs_sweep g n v, isSome_deriv?_sweep_iff hg hn hsweep, fun m hr => ?_⟩
  obtain ⟨paths, hsorted, hpaths, ⟨rfl, -⟩ | ⟨c, cs, total, hmap, hfold, hd⟩⟩ :=
    sweep_path_sum hg hn hsweep m
  · obtain ⟨p, hp⟩ := reaches_iff_exists_path.1 hr
    exact (List.not_mem_nil ((hpaths p).2 hp)).elim
  · exact ⟨paths, c, cs, total, hsorted, hpaths, hmap, hfold, hd⟩

/-- A square that is added to itself and to its root: two paths reach the square, three the
root. -/
theorem evalDeriv_of_diamond :
    let g := Graph.empty.after .whole .whole
      [.constant .any 3, .unary .square (.node 0), .binary .add (.node 1) (.node 1),
        .binary .add (.node 2) (.node 0), .evalValue (.node 3)]
    ∃ (paths : List (List Nat)) (c : Int) (cs : List Int),
      paths.Pairwise (· < ·) ∧ (∀ p, p ∈ paths ↔ g.follow 3 p = some 0) ∧
      paths.mapM (g.delivered .whole 3 1) = .ok (c :: cs) ∧ cs.foldlM Rules.whole.add c = .ok 13 ∧
      ((Action.evalDeriv Rules.whole (.node 3)).run g).graph.deriv? 0 = some 13 := by
  intro g
  obtain ⟨v, -, -, -, h⟩ := evalDeriv_path_sum .whole .whole
    [.constant .any 3, .unary .square (.node 0), .binary .add (.node 1) (.node 1),
      .binary .add (.node 2) (.node 0), .evalValue (.node 3)] 3 (by decide +kernel)
  have hd : ((Action.evalDeriv Rules.whole (.node 3)).run g).graph.deriv? 0 = some 13 := by
    decide +kernel
  have hreach : g.Reaches 3 0 := reaches_iff_exists_path.2 ⟨[1], by decide +kernel⟩
  obtain ⟨paths, c, cs, total, hsorted, hpaths, hmap, hfold, htotal⟩ := h 0 hreach
  have h13 : total = 13 := Option.some.inj (htotal.symm.trans hd)
  subst h13
  exact ⟨paths, c, cs, hsorted, hpaths, hmap, hfold, hd⟩

end DiffGraph
