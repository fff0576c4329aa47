import DiffGraph.Proofs.Engine.Backward
import DiffGraph.Proofs.Engine.History

/-!
# A reverse pass visits a tree in preorder

The loop of a reverse pass keeps no record of the nodes it has met, so that a node is visited once
for every place that it has in the tree of the output. Each entry on the stack stands for a tree,
and the places of these trees are what is left to visit: a visit to a node puts the trees of its
operands in the place of its own, which is one place less. The order and the number of the visits
are a matter of the tree alone, whatever the values and the rules are.
-/

namespace DiffGraph

variable {V E : Type} {rules : Rules V E}

namespace Unfolding

/-- The nodes at the places of a tree: a node comes before what is below it, and what is below its
left operand before what is below the right one. -/
def preorder : Unfolding → List Nat
  | .leaf n => [n]
  | .unary n _ t => n :: t.preorder
  | .binary n _ l r => n :: (l.preorder ++ r.preorder)

/-- The number of places of a tree, one for every path of operands from its root. -/
def places : Unfolding → Nat
  | .leaf _ => 1
  | .unary _ _ t => 1 + t.places
  | .binary _ _ l r => 1 + l.places + r.places

theorem length_preorder (t : Unfolding) : t.preorder.length = t.places := by
  induction t with
  | leaf n => rfl
  | unary n op t ih => rw [preorder, places, List.length_cons, ih, Nat.add_comm]
  | binary n op l r ihl ihr =>
      rw [preorder, places, List.length_cons, List.length_append, ihl, ihr]
      omega

theorem places_eq_succ (t : Unfolding) : t.places = (t.operands.map places).sum + 1 := by
  cases t with
  | leaf n => rfl
  | unary n op t => simp [places, operands, Nat.add_comm]
  | binary n op l r => simp [places, operands, Nat.add_comm, Nat.add_assoc]

end Unfolding

open Unfolding (preorder places length_preorder places_eq_succ)

/-- A derivative rule, or the addition of gradients, fails for some cause. -/
def Rules.Fails (rules : Rules V E) (c : E) : Prop :=
  (∃ op x d, rules.unaryPull op x d = .error c) ∨
    (∃ op x y d, rules.binaryPull op x y d = .error c) ∨ ∃ d d', rules.add d d' = .error c

/-- No derivative rule ever fails, and gradients can always be added. -/
def Rules.Unfailing (rules : Rules V E) : Prop := ∀ c, ¬ rules.Fails c

namespace Graph

variable {g h : Graph V} {n m : Nat} {t : Unfolding} {ts : List Unfolding} {d : V}

/-! ## The places of a tree -/

theorem Unfolds.preorder_eq (ht : g.Unfolds n t) :
    t.preorder = n :: t.operands.flatMap preorder := by
  cases ht with
  | leaf => rfl
  | unary => simp [preorder, Unfolding.operands]
  | binary => simp [preorder, Unfolding.operands]

theorem Unfolds.mem_preorder_self (ht : g.Unfolds n t) : n ∈ t.preorder := by
  rw [ht.preorder_eq]
  exact List.mem_cons_self

theorem Unfolds.singleton_prefix (ht : g.Unfolds n t) (done : List Nat) (ts : List Unfolding) :
    (n :: done).reverse <+: done.reverse ++ (t :: ts).flatMap preorder := by
  rw [List.reverse_cons, List.prefix_append_right_inj, List.flatMap_cons, ht.preorder_eq]
  exact ⟨_, rfl⟩

theorem Unfolds.mem_preorder_of_operands (ht : g.Unfolds n t) {s : Unfolding}
    (hs : s ∈ t.operands) (hm : m ∈ s.preorder) : m ∈ t.preorder := by
  rw [ht.preorder_eq]
  exact List.mem_cons_of_mem n (List.mem_flatMap.2 ⟨s, hs, hm⟩)

/-- The root of a tree reaches the nodes at its places. -/
theorem Unfolds.reaches_of_mem_preorder (ht : g.Unfolds n t) (hm : m ∈ t.preorder) :
    g.Reaches n m := by
  induction ht with
  | leaf =>
      rw [List.mem_singleton.1 hm]
      exact .refl
  | unary _ hi _ ih =>
      rcases List.mem_cons.1 hm with rfl | hm
      · exact .refl
      · exact (ih hm).head (by simp [Uses, hi])
  | binary _ hi _ _ ihl ihr =>
      rcases List.mem_cons.1 hm with rfl | hm
      · exact .refl
      rcases List.mem_append.1 hm with hm | hm
      · exact (ihl hm).head (by simp [Uses, hi])
      · exact (ihr hm).head (by simp [Uses, hi])

/-- There are fewer places than a complete binary tree of the height of the index has. -/
theorem Unfolds.places_lt (ht : g.Unfolds n t) (hg : g.Ascending) : t.places < 2 ^ (n + 1) := by
  induction ht with
  | @leaf n _ =>
      have hpos := Nat.two_pow_pos n
      rw [places, Nat.pow_succ]
      omega
  | @unary n a op t _ hi _ ih =>
      have ha : a < n := hg n a (by simp [hi])
      have hle : 2 ^ (a + 1) ≤ 2 ^ n := Nat.pow_le_pow_right (by omega) ha
      rw [places, Nat.pow_succ]
      omega
  | @binary n l r op s t _ hi _ _ ihl ihr =>
      have hl : l < n := hg n l (by simp [hi])
      have hr : r < n := hg n r (by simp [hi])
      have hle₁ : 2 ^ (l + 1) ≤ 2 ^ n := Nat.pow_le_pow_right (by omega) hl
      have hle₂ : 2 ^ (r + 1) ≤ 2 ^ n := Nat.pow_le_pow_right (by omega) hr
      rw [places, Nat.pow_succ]
      omega

theorem Unfolds.places_le_sweepSteps (ht : g.Unfolds n t) (hg : g.Ascending) (hn : n < g.size) :
    t.places ≤ sweepSteps g := by
  have hlt := ht.places_lt hg
  have hle : 2 ^ (n + 1) ≤ sweepSteps g := Nat.pow_le_pow_right (by omega) hn
  omega

/-! ## Listed visits -/

/-- The visits from a node are to the places of its tree. -/
theorem Visits.map_node {vs : List (Visit V)} (hv : Visits rules g n d vs) :
    ∃ t, g.Unfolds n t ∧ vs.map Visit.node = t.preorder := by
  induction hv with
  | leaf hl => exact ⟨_, .leaf (application_eq_leaf_iff.1 hl), rfl⟩
  | unary hl _ _ _ ih =>
      obtain ⟨hk, hi⟩ := application_eq_unary_iff.1 hl
      obtain ⟨t, ht, hmap⟩ := ih
      refine ⟨_, .unary hk hi ht, ?_⟩
      rw [preorder, ← hmap, List.map_cons, List.map_map]
      rfl
  | binary hl _ _ _ _ _ ihl ihr =>
      obtain ⟨hk, hi⟩ := application_eq_binary_iff.1 hl
      obtain ⟨s, hs, hmaps⟩ := ihl
      obtain ⟨t, ht, hmapt⟩ := ihr
      refine ⟨_, .binary hk hi hs ht, ?_⟩
      rw [preorder, ← hmaps, ← hmapt, List.map_cons, List.map_append, List.map_map, List.map_map]
      rfl

theorem Visits.length_le_sweepSteps {vs : List (Visit V)} (hv : Visits rules g n d vs)
    (hg : g.Ascending) (hn : n < g.size) : vs.length ≤ sweepSteps g := by
  obtain ⟨t, ht, hmap⟩ := hv.map_node
  rw [← List.length_map (f := Visit.node), hmap, length_preorder]
  exact ht.places_le_sweepSteps hg hn

end Graph

open DiffGraph.Graph

variable {g h : Graph V} {n : Nat} {d : V} {ts : List Unfolding}

/-- Visits that add up are made by a pass that does not fail. -/
theorem sweep_of_visits {v : V} {vs : List (Visit V)} (hg : g.Ascending) (hn : n < g.size)
    (hv : Visits rules g n (rules.seed v) vs) (ha : g.withoutDerivs.accumulate rules vs = .ok h) :
    sweep rules g n v = ⟨.ok (), h, vs.map Visit.node⟩ := by
  have hle := hv.length_le_sweepSteps hg hn
  have hk : sweepSteps g = vs.length + (sweepSteps g - vs.length) := by omega
  rw [sweep, hk, hv.sweepStack_eq (withoutDerivs_withoutDerivs g) ha]
  simp [sweepStack]

/-! ## The loop -/

namespace Graph

variable {t : Unfolding}

/-- The nodes at the places of a tree hold values. -/
def Filled (g : Graph V) (t : Unfolding) : Prop := ∀ m ∈ t.preorder, (g.value? m).isSome

theorem Unfolds.filled_of_operands (ht : g.Unfolds n t) (hf : g.Filled t) {s : Unfolding}
    (hs : s ∈ t.operands) : g.Filled s :=
  fun _ hm => hf _ (ht.mem_preorder_of_operands hs hm)

theorem Unfolds.exists_value? (ht : g.Unfolds n t) (hf : g.Filled t) :
    ∃ v, g.value? n = some v :=
  Option.isSome_iff_exists.1 (hf n ht.mem_preorder_self)

theorem accumulated_cases (rules : Rules V E) (g : Graph V) (n : Nat) (d : V) :
    (∃ total, g.accumulated rules n d = .ok total) ∨
      ∃ c, rules.Fails c ∧ g.accumulated rules n d = .error (.rule c) := by
  unfold accumulated
  cases g.deriv? n with
  | none => exact .inl ⟨d, rfl⟩
  | some before =>
      simp only
      cases hadd : rules.add before d with
      | ok total => exact .inl ⟨total, rfl⟩
      | error c => exact .inr ⟨c, .inr (.inr ⟨before, d, hadd⟩), rfl⟩

/-- A visit hands something on to the trees of the operands, unless a derivative rule fails. -/
theorem Unfolds.contributions_cases (ht : g.Unfolds n t) (hf : g.Filled t) (rules : Rules V E)
    (d : V) :
    (∃ parts, g.contributions rules n d = .ok parts ∧
        List.Forall₂ (fun p s => g.Unfolds p.1 s) parts t.operands) ∨
      ∃ c, rules.Fails c ∧ g.contributions rules n d = .error (.rule c) := by
  cases ht with
  | leaf hk =>
      exact .inl ⟨[], contributions_eq_ok_iff.2 (.inl ⟨application_eq_leaf_iff.2 hk, rfl⟩), .nil⟩
  | @unary _ a op s hk hi hs =>
      have happ := application_eq_unary_iff (E := E).2 ⟨hk, hi⟩
      obtain ⟨x, hx⟩ := hs.exists_value? fun m hm => hf m (List.mem_cons_of_mem n hm)
      cases hp : rules.unaryPull op x d with
      | ok da =>
          exact .inl ⟨[(a, da)], contributions_eq_ok_iff.2
            (.inr (.inl ⟨op, a, x, da, happ, hx, hp, rfl⟩)), .cons hs .nil⟩
      | error c =>
          refine .inr ⟨c, .inl ⟨op, x, d, hp⟩, ?_⟩
          simp [contributions, happ, operandValue, hx, hp]
  | @binary _ l r op s u hk hi hs hu =>
      have happ := application_eq_binary_iff (E := E).2 ⟨hk, hi⟩
      obtain ⟨x, hx⟩ := hs.exists_value? fun m hm =>
        hf m (List.mem_cons_of_mem n (List.mem_append_left _ hm))
      obtain ⟨y, hy⟩ := hu.exists_value? fun m hm =>
        hf m (List.mem_cons_of_mem n (List.mem_append_right _ hm))
      cases hp : rules.binaryPull op x y d with
      | ok ds =>
          exact .inl ⟨[(l, ds.1), (r, ds.2)], contributions_eq_ok_iff.2
            (.inr (.inr ⟨op, l, r, x, y, ds.1, ds.2, happ, hx, hy, hp, rfl⟩)),
            .cons hs (.cons hu .nil)⟩
      | error c =>
          refine .inr ⟨c, .inr (.inl ⟨op, x, y, d, hp⟩), ?_⟩
          simp [contributions, happ, operandValue, hx, hy, hp]

end Graph

/-- With a step for each place of the trees on the stack, the loop visits these places in order,
unless a rule fails on the way. -/
theorem sweepStack_visits (rules : Rules V E) {steps : Nat} (stack : List (Nat × V))
    (done : List Nat) (same : h.withoutDerivs = g.withoutDerivs)
    (ht : List.Forall₂ (fun p t => g.Unfolds p.1 t) stack ts) (hf : ∀ t ∈ ts, g.Filled t)
    (enough : (ts.map places).sum ≤ steps) :
    let pass := sweepStack rules steps stack h done
    (pass.outcome = .ok () ∧ pass.visited = done.reverse ++ ts.flatMap preorder) ∨
      ∃ c, rules.Fails c ∧ pass.outcome = .error (.rule c) ∧
        pass.visited <+: done.reverse ++ ts.flatMap preorder := by
  fun_induction sweepStack rules steps stack h done generalizing ts with
  | case1 =>
      cases ht
      exact .inl ⟨rfl, (List.append_nil _).symm⟩
  | case2 p stack h done =>
      obtain ⟨t, ts, -, -, rfl⟩ := List.forall₂_cons_left_iff.1 ht
      rw [List.map_cons, List.sum_cons, places_eq_succ] at enough
      omega
  | case3 steps n d stack h done e he =>
      obtain ⟨t, ts, htop, -, rfl⟩ := List.forall₂_cons_left_iff.1 ht
      rcases accumulated_cases rules h n d with ⟨total, htotal⟩ | ⟨c, hc, herr⟩
      · cases he.symm.trans htotal
      · obtain rfl : e = .rule c := Except.error.inj (he.symm.trans herr)
        exact .inr ⟨c, hc, rfl, htop.singleton_prefix done ts⟩
  | case4 steps n d stack h done total htotal h' e =>
      rename_i he
      obtain ⟨t, ts, htop, -, rfl⟩ := List.forall₂_cons_left_iff.1 ht
      rw [contributions_congr ((withoutDerivs_withDeriv h n _).trans same)] at he
      rcases htop.contributions_cases (hf t List.mem_cons_self) rules d with
        ⟨parts, hparts, -⟩ | ⟨c, hc, herr⟩
      · cases he.symm.trans hparts
      · obtain rfl : e = .rule c := Except.error.inj (he.symm.trans herr)
        exact .inr ⟨c, hc, rfl, htop.singleton_prefix done ts⟩
  | case5 steps n d stack h done total htotal h' parts =>
      rename_i hparts ih
      obtain ⟨t, ts, htop, hrest, rfl⟩ := List.forall₂_cons_left_iff.1 ht
      have same' := (withoutDerivs_withDeriv h n (some total)).trans same
      rw [contributions_congr same'] at hparts
      rcases htop.contributions_cases (hf t List.mem_cons_self) rules d with
        ⟨parts', hparts', hunfolds⟩ | ⟨c, -, herr⟩
      · obtain rfl : parts = parts' := Except.ok.inj (hparts.symm.trans hparts')
        have hleft : done.reverse ++ (t :: ts).flatMap preorder =
            (n :: done).reverse ++ (t.operands ++ ts).flatMap preorder := by
          simp [htop.preorder_eq]
        rw [hleft]
        refine ih same' (List.rel_append hunfolds hrest) (fun s hs => ?_) ?_
        · rcases List.mem_append.1 hs with hs | hs
          · exact htop.filled_of_operands (hf t List.mem_cons_self) hs
          · exact hf s (List.mem_cons_of_mem t hs)
        · -- The place of the node itself is gone.
          rw [List.map_cons, List.sum_cons, places_eq_succ] at enough
          rw [List.map_append, List.sum_append]
          omega
      · cases hparts.symm.trans herr

/-- A loop that is not stopped by its bound is the same under any larger bound. -/
theorem sweepStack_add (k steps : Nat) (stack : List (Nat × V)) (h : Graph V) (done : List Nat)
    (hne : (sweepStack rules steps stack h done).outcome ≠ .error .cyclic) :
    sweepStack rules (steps + k) stack h done = sweepStack rules steps stack h done := by
  fun_induction sweepStack rules steps stack h done with
  | case1 => simp [sweepStack]
  | case2 => exact (hne rfl).elim
  | case3 steps n d stack h done e he => simp only [Nat.succ_add, sweepStack, he]
  | case4 steps n d stack h done total htotal h' e he =>
      have he' : (h.withDeriv n (some total)).contributions rules n d = .error e := he
      simp only [Nat.succ_add, sweepStack, htotal, he']
      rfl
  | case5 steps n d stack h done total htotal h' parts hparts ih =>
      have hparts' : (h.withDeriv n (some total)).contributions rules n d = .ok parts := hparts
      simp only [Nat.succ_add, sweepStack, htotal, hparts']
      exact ih hne

/-- A pass from the root of a tree needs a step for each place and has no use for more. -/
theorem Graph.Unfolds.sweep_visits {t : Unfolding} (ht : g.Unfolds n t) (hf : g.Filled t)
    (hg : g.Ascending) (rules : Rules V E) (v : V) :
    let pass := sweep rules g n v
    (∀ k, sweepStack rules (t.places + k) [(n, rules.seed v)] g.withoutDerivs [] = pass) ∧
      ((pass.outcome = .ok () ∧ pass.visited = t.preorder) ∨
        ∃ c, rules.Fails c ∧ pass.outcome = .error (.rule c) ∧ pass.visited <+: t.preorder) := by
  intro pass
  have hn : n < g.size := by
    obtain ⟨x, hx⟩ := ht.exists_value? hf
    exact lt_size_of_value? hx
  have hfilled : ∀ s ∈ [t], g.Filled s := by
    intro s hs
    rwa [List.mem_singleton.1 hs]
  have hcases := sweepStack_visits rules [(n, rules.seed v)] [] (withoutDerivs_withoutDerivs g)
    (.cons ht .nil) hfilled (Nat.le_of_eq List.sum_singleton)
  have hne : (sweepStack rules t.places [(n, rules.seed v)] g.withoutDerivs []).outcome ≠
      .error .cyclic := by
    rcases hcases with ⟨hok, -⟩ | ⟨c, -, herr, -⟩
    · rw [hok]
      exact nofun
    · rw [herr]
      exact nofun
  have hmore := fun k => sweepStack_add k _ _ _ _ hne
  obtain ⟨k, hk⟩ := Nat.exists_eq_add_of_le (ht.places_le_sweepSteps hg hn)
  have hpass : pass = sweepStack rules t.places [(n, rules.seed v)] g.withoutDerivs [] := by
    rw [← hmore k, ← hk]
    rfl
  rw [← hpass] at hmore
  simp only [← hpass, List.reverse_nil, List.nil_append, List.flatMap_singleton] at hcases
  exact ⟨hmore, hcases⟩

/-- On a graph whose edges go to later nodes and whose operators have their operands, take a node
that holds a value, as do all the nodes that it reaches. A reverse pass from it comes to an end,
within as many visits as the tree of the node has places. If no rule fails, it visits the tree in
preorder and reports the number of the places. Only a rule can stop it, when it has visited the
first of these places. -/
theorem evalDeriv_visits_preorder {g : Graph V} (hg : g.Ascending) (ho : g.Supplied) {n : Nat}
    (hv : ∀ m, g.Reaches n m → (g.value? m).isSome) (rules : Rules V E) :
    ∃ t v, g.Unfolds n t ∧ g.value? n = some v ∧
      let pass := sweep rules g n v
      let reply := (Action.evalDeriv rules (.node n)).run g
      (∀ k, sweepStack rules (t.places + k) [(n, rules.seed v)] g.withoutDerivs [] = pass) ∧
      (rules.Unfailing → reply.outcome = .ok ()) ∧
      (reply.outcome = .ok () →
        pass.visited = t.preorder ∧ reply.events = [.backward (.node n) t.places]) ∧
      ∀ e, reply.outcome = .error e →
        ∃ c, e = .rule c ∧ rules.Fails c ∧ pass.visited <+: t.preorder := by
  obtain ⟨v, hn⟩ := Option.isSome_iff_exists.1 (hv n .refl)
  obtain ⟨t, ht⟩ := hg.exists_unfolds ho (lt_size_of_value? hn)
  have hf : g.Filled t := fun m hm => hv m (ht.reaches_of_mem_preorder hm)
  obtain ⟨hmore, ⟨hok, hvisited⟩ | ⟨c, hc, herr, hprefix⟩⟩ := ht.sweep_visits hf hg rules v
  · refine ⟨t, v, ht, hn, hmore, ?_⟩
    rw [Action.run_evalDeriv_node g rules hn]
    simp only [hok, hvisited, length_preorder]
    exact ⟨fun _ => trivial, fun _ => ⟨trivial, trivial⟩, nofun⟩
  · refine ⟨t, v, ht, hn, hmore, ?_⟩
    rw [Action.run_evalDeriv_node g rules hn]
    simp only [herr]
    refine ⟨fun hrules => (hrules c hc).elim, nofun, ?_⟩
    rintro e ⟨⟩
    exact ⟨c, rfl, hc, hprefix⟩

/-- A calculus in which every node hands on what comes in, so that a pass counts the paths. -/
def Rules.counting : Rules Nat Empty where
  unary _ x := .ok x
  binary _ x y := .ok (x + y)
  unaryPull _ _ d := .ok d
  binaryPull _ _ _ d := .ok (d, d)
  seed _ := 1
  add c d := .ok (c + d)

/-- Numbers as data of their own, of any rank. -/
def Conversion.counting : Conversion Nat Nat Empty where
  any := .ok
  scalar := .ok
  vector := .ok
  data := id

/-- A leaf that is taken twice by an operator that is taken twice: the leaf is visited four
times. -/
theorem evalDeriv_of_ladder :
    let g := Graph.empty.after .counting .counting
      [.constant .any 1, .binary .mul (.node 0) (.node 0), .binary .add (.node 1) (.node 1),
        .evalValue (.node 2)]
    let reply := (Action.evalDeriv Rules.counting (.node 2)).run g
    (g.Ascending ∧ g.Supplied ∧ ∀ m, g.Reaches 2 m → (g.value? m).isSome) ∧
      Rules.counting.Unfailing ∧ reply.outcome = .ok () ∧
      (sweep .counting g 2 4).visited = [2, 1, 0, 0, 1, 0, 0] ∧
      reply.events = [.backward (.node 2) 7] := by
  intro g reply
  have hg : g.WellFormed := wellFormed_after .counting .counting _
  have hheld : ∀ m < g.size, (g.value? m).isSome := by decide +kernel
  have hv : ∀ m, g.Reaches 2 m → (g.value? m).isSome := fun m hr =>
    hheld m (hr.lt_size hg (by decide +kernel))
  have hrules : Rules.counting.Unfailing := nofun
  obtain ⟨t, v, -, hn, -, hok, hvisits, -⟩ :=
    evalDeriv_visits_preorder hg.ascending hg.supplied hv Rules.counting
  obtain ⟨hvisited, hevents⟩ := hvisits (hok hrules)
  obtain rfl : v = 4 := Option.some.inj (hn.symm.trans (by decide +kernel))
  have hseven : (sweep .counting g 2 4).visited = [2, 1, 0, 0, 1, 0, 0] := by decide +kernel
  refine ⟨⟨hg.ascending, hg.supplied, hv⟩, hrules, hok hrules, hseven, ?_⟩
  rw [hevents, ← length_preorder, ← hvisited, hseven]
  rfl

end DiffGraph
