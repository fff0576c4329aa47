import DiffGraph.Proofs.Engine.PassShapes
import DiffGraph.Proofs.Engine.Underway

/-!
# What a failed reverse pass leaves behind

A reverse pass on tensors that is refused at the start leaves the graph as it is. One that has begun
fails only at a `dot` whose operands cannot both be given a gradient, the first on its way, and
leaves what it has added up by then: the seed at the output, and sums over the paths up to the `dot`
only at the other nodes.
-/

namespace DiffGraph

variable {D : Type} {A : DType → Type} [Arithmetic A]

namespace Graph

variable {g : Graph (Tensor A)} {n m : Nat} {d c : Tensor A}

/-- What arrives along a path has the shape of the value at its end. -/
theorem Shaped.delivered (hg : g.WellFormed) (hc : Coherent (Tensor.rules A) g)
    (hs : g.Shaped n d) {p : List Nat} (hp : g.follow n p = some m)
    (hd : g.delivered (Tensor.rules A) n d p = .ok c) : g.Shaped m c := by
  induction p generalizing n d with
  | nil =>
      cases hp
      cases hd
      exact hs
  | cons i p ih =>
      obtain ⟨parts, a, da, hparts, hi, hd⟩ := delivered_cons_eq_ok_iff.1 hd
      rw [follow_cons hg hparts, hi] at hp
      exact ih (hs.of_contributions hc hparts (a, da) (List.mem_of_getElem? hi)) hp hd

/-- A pass that fails does so at the first `dot` that does not fit, when it has visited the paths up
to this one. -/
theorem broken_sweep (hg : g.WellFormed) (hc : Coherent (Tensor.rules A) g) {v : Tensor A}
    (hv : g.value? n = some v) {e : Fault TensorError}
    (he : (sweep (Tensor.rules A) g n v).outcome = .error e) :
    ∃ vs w rest k total, g.Underway (Tensor.rules A) n v.onesLike vs (w :: rest) k ∧
      k.accumulated (Tensor.rules A) w.node w.gradient = .ok total ∧ g.Unfit w.node ∧
      (∀ u ∈ vs, ¬ g.Unfit u.node) ∧
      (sweep (Tensor.rules A) g n v).graph = k.withDeriv w.node (some total) := by
  have hseed : g.Shaped n v.onesLike := ⟨v, hv, rfl⟩
  have hinit := Underway.initial (Tensor.rules A) g n v.onesLike
  rcases hinit.of_sweepStack_error hg rfl he with rfl | ⟨vs, w, rest, k, hu, hfailure⟩
  · obtain ⟨-, ⟨hok, -⟩ | ⟨m, e', -, -, -, herr⟩⟩ := sweep_shaped hg hc hv
    · rw [hok] at he
      cases he
    · rw [herr] at he
      cases he
  have hshaped : ∀ u, u ∈ vs ∨ u ∈ w :: rest → g.Shaped u.node u.gradient := fun u hm =>
    hseed.delivered hg hc (hu.at_end u hm).1 (hu.at_end u hm).2
  have hw := hshaped w (.inr List.mem_cons_self)
  obtain ⟨k', hk', hderivs⟩ :=
    accumulate_withoutDerivs_eq_ok fun u hm => hshaped u (.inl hm)
  have hkk : k' = k := Except.ok.inj (hk'.symm.trans hu.sums)
  subst hkk
  obtain ⟨total, htotal, -⟩ := hw.accumulated hderivs
  rcases hfailure with ⟨hacc, -⟩ | ⟨total', htotal', hcontr, hgraph⟩
  · rw [htotal] at hacc
    cases hacc
  refine ⟨vs, w, rest, k', total', hu, htotal', ?_, fun u hm => ?_, hgraph⟩
  · by_contra hfit
    obtain ⟨parts, hparts, -⟩ := hw.contributions hc hfit
    rw [hparts] at hcontr
    cases hcontr
  · obtain ⟨parts, hparts⟩ := hu.passed u hm
    exact (hshaped u (.inl hm)).not_unfit hc hparts

/-- What a pass that failed leaves behind. -/
theorem sweep_error_leaves (hg : g.WellFormed) (hc : Coherent (Tensor.rules A) g) {v : Tensor A}
    (hv : g.value? n = some v) {e : Fault TensorError}
    (he : (sweep (Tensor.rules A) g n v).outcome = .error e) :
    ∃ q m, g.follow n q = some m ∧ g.Unfit m ∧
      (∀ p k, p < q → g.follow n p = some k → ¬ g.Unfit k) ∧
      ∀ k, g.SumsAlong (Tensor.rules A) n v.onesLike (fun p => p < q ∨ p = q) k
        ((sweep (Tensor.rules A) g n v).graph.deriv? k) := by
  obtain ⟨vs, w, rest, k, total, hu, htotal, hfit, hbefore, hgraph⟩ := broken_sweep hg hc hv he
  have hsums := hu.sumsAlong hg (lt_size_of_value? hv) htotal
  rw [← hgraph] at hsums
  refine ⟨w.path, w.node, (hu.at_end w (.inr List.mem_cons_self)).1, hfit,
    fun p j hlt hj => ?_, hsums⟩
  obtain ⟨u, hm, rfl⟩ := (hu.upTo_path_iff hj).1 (.inl hlt)
  rw [List.mem_append, List.mem_singleton] at hm
  rcases hm with hm | rfl
  · have hnode := (hu.at_end u (.inl hm)).1.symm.trans hj
    rw [← Option.some.inj hnode]
    exact hbefore u hm
  · exact (List.lt_irrefl _ hlt).elim

end Graph

open DiffGraph.Graph

/-- The three ways a reverse pass can go. -/
theorem Action.evalDeriv_cases {V E : Type} (g : Graph V) (rules : Rules V E) (i : Int) :
    let reply := (Action.evalDeriv rules (.index i)).run g
    (reply.outcome = .error (.foreignIndex (.index i)) ∧ reply.graph = g) ∨
      (reply.outcome = .error (.valueUninitialized (.index i)) ∧ reply.graph = g) ∨
      ∃ (n : Nat) (v : V), i = n ∧ g.value? n = some v ∧
        reply.outcome = (sweep rules g n v).outcome ∧ reply.graph = (sweep rules g n v).graph := by
  intro reply
  have hreply : reply = _ := Action.run_evalDeriv g rules (.index i)
  rcases check_index (E := E) g i with ⟨n, hi, -, hcheck⟩ | ⟨-, hcheck⟩
  · have hresolve : (g.resolve (.index i) : Except (Fault E) Nat) = .ok n := hcheck
    rw [hresolve] at hreply
    cases hv : g.value? n with
    | none =>
        simp only [hv] at hreply
        exact .inr (.inl ⟨by rw [hreply], by rw [hreply]⟩)
    | some v =>
        simp only [hv] at hreply
        exact .inr (.inr ⟨n, v, hi, hv, by rw [hreply], by rw [hreply]⟩)
  · have hresolve : (g.resolve (.index i) : Except (Fault E) Nat) =
        .error (.foreignIndex (.index i)) := hcheck
    rw [hresolve] at hreply
    exact .inl ⟨by rw [hreply], by rw [hreply]⟩

/-- A reverse pass that fails changes nothing but gradients. Where the output reaches no `dot` that
does not fit, it changes nothing at all. It changes nothing where the output is no node or has no
value; otherwise it has failed at the first such `dot`, the output keeps the seed, and every node
the sum of what came in along the paths to it up to the one to the `dot`. -/
theorem evalDeriv_error_leaves (conversion : Conversion D (Tensor A) TensorError)
    (calls : List (Call D)) (i : Int) {e : Fault TensorError}
    (he : ((Action.evalDeriv (Tensor.rules A) (.index i)).run
      (Graph.empty.after conversion (Tensor.rules A) calls)).outcome = .error e) :
    let g := Graph.empty.after conversion (Tensor.rules A) calls
    let g' := ((Action.evalDeriv (Tensor.rules A) (.index i)).run g).graph
    g'.withoutDerivs = g.withoutDerivs ∧
    ((∀ n m : Nat, i = n → g.Reaches n m → ¬ g.Unfit m) → g' = g) ∧
    ((g' = g ∧ (e = .foreignIndex (.index i) ∨ e = .valueUninitialized (.index i))) ∨
      ∃ (n m : Nat) (q : List Nat) (v : Tensor A), i = n ∧ g.value? n = some v ∧
        g.follow n q = some m ∧ g.Unfit m ∧
        (∀ p k, p < q → g.follow n p = some k → ¬ g.Unfit k) ∧
        g'.deriv? n = some v.onesLike ∧
        ∀ k, g.SumsAlong (Tensor.rules A) n v.onesLike (fun p => p < q ∨ p = q) k
          (g'.deriv? k)) := by
  intro g g'
  obtain ⟨hg, hc⟩ := coherent_after conversion (Tensor.rules A) calls
  rcases Action.evalDeriv_cases g (Tensor.rules A) i with ⟨hout, hgraph⟩ | ⟨hout, hgraph⟩ |
    ⟨n, v, hi, hv, hout, hgraph⟩
  · have hsame : g' = g := hgraph
    rw [hsame]
    exact ⟨rfl, fun _ => rfl, .inl ⟨rfl, .inl (Except.error.inj (he.symm.trans hout))⟩⟩
  · have hsame : g' = g := hgraph
    rw [hsame]
    exact ⟨rfl, fun _ => rfl, .inl ⟨rfl, .inr (Except.error.inj (he.symm.trans hout))⟩⟩
  · have hsweep : g' = (sweep (Tensor.rules A) g n v).graph := hgraph
    have hleaves := sweep_error_leaves hg hc hv (hout.symm.trans he)
    rw [← hsweep] at hleaves
    obtain ⟨q, m, hq, hfit, hbefore, hsums⟩ := hleaves
    have hstart : [] < q ∨ [] = q := by
      cases q with
      | nil => exact .inr rfl
      | cons i q => exact .inl (List.nil_lt_cons i q)
    have hseed := (hsums n).eq_seed hg.ascending hstart
    refine ⟨?_, fun hno => ?_, .inr ⟨n, m, q, v, hi, hv, hq, hfit, hbefore, hseed, hsums⟩⟩
    · rw [hsweep]
      exact withoutDerivs_sweep g n v
    · exact (hno n m hi (reaches_iff_exists_path.2 ⟨q, hq⟩) hfit).elim

/-- A column is multiplied with a row, and the sum of products with a number that is used once more.
The number keeps what came in before the pass failed. -/
theorem evalDeriv_of_hidden_dot :
    let g := Graph.empty.after Config.standard.conversion (Tensor.rules Machine)
      [.constant .any (.list [.list [.int 1], .list [.int 2]]),
        .constant .any (.list [.list [.int 1, .int 2, .int 3]]),
        .binary .dot (.node 0) (.node 1), .constant .any (.int 5),
        .binary .mul (.node 3) (.node 2), .binary .add (.node 4) (.node 3), .evalValue (.node 5)]
    let reply := (Action.evalDeriv (Tensor.rules Machine) (.index 5)).run g
    reply.outcome = .error (.rule (.notReshapable 1 [2, 1])) ∧
      reply.graph.withoutDerivs = g.withoutDerivs ∧ (reply.graph.deriv? 3).isSome ∧
      ∃ v, g.value? 5 = some v ∧ reply.graph.deriv? 5 = some v.onesLike := by
  intro g reply
  have herr : reply.outcome = .error (.rule (.notReshapable 1 [2, 1])) := by decide +kernel
  obtain ⟨hrest, -, ⟨-, h | h⟩ | ⟨n, m, q, v, hi, hv, -, -, -, hseed, -⟩⟩ :=
    evalDeriv_error_leaves Config.standard.conversion
      [.constant .any (.list [.list [.int 1], .list [.int 2]]),
        .constant .any (.list [.list [.int 1, .int 2, .int 3]]),
        .binary .dot (.node 0) (.node 1), .constant .any (.int 5),
        .binary .mul (.node 3) (.node 2), .binary .add (.node 4) (.node 3), .evalValue (.node 5)]
      5 herr
  · cases h
  · cases h
  · obtain rfl : n = 5 := by omega
    exact ⟨herr, hrest, by decide +kernel, v, hv, hseed⟩

/-- A pass that fails at its output leaves the seed there, where no gradient was before. -/
theorem evalDeriv_of_stretched_dot_leaves_seed :
    let g := Graph.empty.after Config.standard.conversion (Tensor.rules Machine)
      [.constant .any (.list [.list [.int 1], .list [.int 2]]),
        .constant .any (.list [.list [.int 1, .int 2, .int 3]]),
        .binary .dot (.node 0) (.node 1), .evalValue (.node 2)]
    let reply := (Action.evalDeriv (Tensor.rules Machine) (.index 2)).run g
    reply.outcome = .error (.rule (.notReshapable 1 [2, 1])) ∧ (g.deriv? 2).isNone ∧
      (reply.graph.deriv? 2).isSome := by
  decide +kernel

end DiffGraph
