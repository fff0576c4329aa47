import DiffGraph.Proofs.Engine.Arena
import DiffGraph.Proofs.Engine.PathSum

/-!
# A reverse pass under way

The loop of a reverse pass is described at every one of its steps: the visits that were made are the
least paths from the output, in order, and every other path goes on from a visit that waits on the
stack. `Underway` says so, and a visit keeps it. It tells what a pass has done by the time at which
a visit fails.
-/

namespace DiffGraph

open DiffGraph.Graph

variable {V E : Type} {rules : Rules V E}

namespace Visit

/-- A visit as it waits on the stack. -/
def entry (w : Visit V) : Nat × V := (w.node, w.gradient)

/-- The visits to the operands of a node, left one first, that a visit to the node leads to. -/
def next (w : Visit V) (parts : List (Nat × V)) : List (Visit V) :=
  parts.zipIdx.map fun part => ⟨w.path ++ [part.2], part.1.1, part.1.2⟩

theorem map_entry_next (w : Visit V) (parts : List (Nat × V)) :
    (w.next parts).map entry = parts := by
  rw [next, List.map_map]
  exact List.zipIdx_map_fst 0 parts

theorem mem_next_iff {w u : Visit V} {parts : List (Nat × V)} :
    u ∈ w.next parts ↔ ∃ i, parts[i]? = some u.entry ∧ u.path = w.path ++ [i] := by
  obtain ⟨p, m, d⟩ := u
  simp only [next, List.mem_map, List.mem_zipIdx_iff_getElem?, mk.injEq, entry]
  constructor
  · rintro ⟨⟨⟨m, d⟩, i⟩, hi, rfl, rfl, rfl⟩
    exact ⟨i, hi, rfl⟩
  · rintro ⟨i, hi, rfl⟩
    exact ⟨((m, d), i), hi, rfl, rfl, rfl⟩

end Visit

/-! ## The order of paths -/

/-- A path lies before another one and does not lead up to it, so that everything beyond it lies
before the other one as well. -/
def LeftOf (p q : List Nat) : Prop := p < q ∧ ¬ p <+: q

theorem LeftOf.append {p q : List Nat} (h : LeftOf p q) (r : List Nat) : LeftOf (p ++ r) q := by
  refine ⟨?_, fun hr => h.2 ((List.prefix_append p r).trans hr)⟩
  obtain ⟨hlt, hnot⟩ := h
  induction p generalizing q with
  | nil => exact (hnot (List.nil_prefix)).elim
  | cons i p ih =>
      cases q with
      | nil => exact (List.not_lt_nil _ hlt).elim
      | cons j q =>
          rw [List.cons_append, List.cons_lt_cons_iff]
          rcases List.cons_lt_cons_iff.1 hlt with hij | ⟨rfl, hpq⟩
          · exact .inl hij
          · exact .inr ⟨rfl, ih hpq fun hp => hnot ((List.prefix_cons_inj i).2 hp)⟩

theorem leftOf_append_singleton (p : List Nat) {i j : Nat} (h : i < j) :
    LeftOf (p ++ [i]) (p ++ [j]) := by
  refine ⟨List.append_left_lt (List.cons_lt_cons_iff.2 (.inl h)), ?_⟩
  rw [List.prefix_append_right_inj, List.cons_prefix_cons]
  rintro ⟨rfl, -⟩
  exact Nat.lt_irrefl i h

theorem lt_append_singleton (p : List Nat) (i : Nat) : p < p ++ [i] := by
  have h : p ++ [] < p ++ [i] := List.append_left_lt (List.nil_lt_cons i [])
  rwa [List.append_nil] at h

/-- The operands of a node are visited from left to right. -/
theorem Visit.pairwise_next (w : Visit V) (parts : List (Nat × V)) :
    (w.next parts).Pairwise fun u v => LeftOf u.path v.path := by
  have hidx : parts.zipIdx.Pairwise fun x y => x.2 < y.2 := by
    rw [← List.pairwise_map (f := Prod.snd), List.zipIdx_map_snd]
    exact List.pairwise_lt_range'
  rw [next, List.pairwise_map]
  exact hidx.imp fun h => leftOf_append_singleton w.path h

namespace Graph

variable {g h : Graph V} {n m : Nat} {d c : V} {vs waiting : List (Visit V)}

/-! ## What arrives beyond a visit -/

/-- What is done with the gradients of two operands is done with what the node hands on. -/
theorem exists_contributions_of_binaryPull {op : Binary} {l r : Nat}
    {f : V × V → Except (Fault E) V}
    (ha : (g.application n : Except (Fault E) _) = .ok (.binary op l r))
    (h : (do
      let x ← g.operandValue l
      let y ← g.operandValue r
      let parts ← (rules.binaryPull op x y d).mapError .rule
      f parts) = .ok c) :
    ∃ dl dr, g.contributions rules n d = .ok [(l, dl), (r, dr)] ∧ f (dl, dr) = .ok c := by
  obtain ⟨x, hx, h⟩ := Except.bind_eq_ok_iff.1 h
  obtain ⟨y, hy, h⟩ := Except.bind_eq_ok_iff.1 h
  obtain ⟨⟨dl, dr⟩, hd, h⟩ := Except.bind_eq_ok_iff.1 h
  exact ⟨dl, dr, contributions_eq_ok_iff.2 (.inr (.inr ⟨op, l, r, x, y, dl, dr, ha,
    operandValue_eq_ok_iff.1 hx, operandValue_eq_ok_iff.1 hy, Except.mapError_eq_ok_iff.1 hd,
    rfl⟩)), h⟩

theorem delivered_cons_eq_ok_iff {i : Nat} {p : List Nat} :
    g.delivered rules n d (i :: p) = .ok c ↔
      ∃ parts a da, g.contributions rules n d = .ok parts ∧ parts[i]? = some (a, da) ∧
        g.delivered rules a da p = .ok c := by
  constructor
  · intro h
    obtain ⟨app, ha, h⟩ := Except.bind_eq_ok_iff.1 h
    cases app with
    | leaf => cases h
    | unary op a =>
        rcases i with _ | i
        · obtain ⟨x, hx, h⟩ := Except.bind_eq_ok_iff.1 h
          obtain ⟨da, hd, h⟩ := Except.bind_eq_ok_iff.1 h
          exact ⟨_, a, da, contributions_eq_ok_iff.2 (.inr (.inl ⟨op, a, x, da, ha,
            operandValue_eq_ok_iff.1 hx, Except.mapError_eq_ok_iff.1 hd, rfl⟩)), rfl, h⟩
        · cases h
    | binary op l r =>
        rcases i with _ | _ | i
        · obtain ⟨dl, dr, hparts, h⟩ := exists_contributions_of_binaryPull ha h
          exact ⟨_, l, dl, hparts, rfl, h⟩
        · obtain ⟨dl, dr, hparts, h⟩ := exists_contributions_of_binaryPull ha h
          exact ⟨_, r, dr, hparts, rfl, h⟩
        · cases h
  · rintro ⟨parts, a, da, hparts, hi, h⟩
    rcases contributions_eq_ok_iff.1 hparts with ⟨-, rfl⟩ | ⟨op, b, x, db, ha, hx, hd, rfl⟩ |
      ⟨op, l, r, x, y, dl, dr, ha, hx, hy, hd, rfl⟩
    · cases hi
    · rcases i with _ | i
      · cases hi
        simpa [delivered, ha, operandValue, hx, hd] using h
      · cases hi
    · rcases i with _ | _ | i
      · cases hi
        simpa [delivered, ha, operandValue, hx, hy, hd] using h
      · cases hi
        simpa [delivered, ha, operandValue, hx, hy, hd] using h
      · cases hi

theorem follow_cons (hg : g.WellFormed) {parts : List (Nat × V)}
    (hp : g.contributions rules n d = .ok parts) (i : Nat) (p : List Nat) :
    g.follow n (i :: p) = parts[i]? >>= fun part => g.follow part.1 p := by
  rw [follow, ← map_fst_contributions hg hp, List.getElem?_map]
  cases parts[i]? <;> rfl

/-- What arrives beyond a node is what goes on from there. -/
theorem delivered_append (hg : g.WellFormed) {p q : List Nat} {b : V} (hp : g.follow n p = some m)
    (hd : g.delivered rules n d p = .ok c) (hq : g.delivered rules m c q = .ok b) :
    g.delivered rules n d (p ++ q) = .ok b := by
  induction p generalizing n d with
  | nil =>
      cases hp
      cases hd
      exact hq
  | cons i p ih =>
      obtain ⟨parts, a, da, hparts, hi, hd⟩ := delivered_cons_eq_ok_iff.1 hd
      rw [follow_cons hg hparts, hi] at hp
      exact delivered_cons_eq_ok_iff.2 ⟨parts, a, da, hparts, hi, ih hp hd⟩

/-! ## Sums over some paths -/

/-- What comes in at a node along the paths from `n` of which `P` holds, added up from the left in
the order of the paths; nothing if there is no such path. -/
def SumsAlong (rules : Rules V E) (g : Graph V) (n : Nat) (d : V) (P : List Nat → Prop) (m : Nat)
    (total : Option V) : Prop :=
  ∃ paths, paths.Pairwise (· < ·) ∧ (∀ p, p ∈ paths ↔ P p ∧ g.follow n p = some m) ∧
    ((paths = [] ∧ total = none) ∨
      ∃ c cs sum, paths.mapM (g.delivered rules n d) = .ok (c :: cs) ∧
        cs.foldlM rules.add c = .ok sum ∧ total = some sum)

theorem Ascending.eq_nil_of_follow (hg : g.Ascending) {p : List Nat}
    (hp : g.follow n p = some n) : p = [] := by
  cases p with
  | nil => rfl
  | cons i p =>
      obtain ⟨a, ha, hp⟩ := Option.bind_eq_some_iff.1 hp
      have hreach : g.Reaches a n := reaches_iff_exists_path.2 ⟨p, hp⟩
      exact (hg.not_transGen_uses n (.head' (List.mem_of_getElem? ha) hreach)).elim

/-- The only path from an output to itself is the empty one, along which the seed comes in. -/
theorem SumsAlong.eq_seed {P : List Nat → Prop} {total : Option V} (hg : g.Ascending) (hP : P [])
    (h : g.SumsAlong rules n d P n total) : total = some d := by
  obtain ⟨paths, hsorted, hpaths, hsum⟩ := h
  have hnil : ∀ p ∈ paths, p = [] := fun p hp => hg.eq_nil_of_follow ((hpaths p).1 hp).2
  have hmem : [] ∈ paths := (hpaths []).2 ⟨hP, rfl⟩
  have hone : paths = [[]] := by
    cases paths with
    | nil => cases hmem
    | cons p paths =>
        obtain ⟨hlt, -⟩ := List.pairwise_cons.1 hsorted
        rw [hnil p List.mem_cons_self] at hlt ⊢
        cases paths with
        | nil => rfl
        | cons p' paths =>
            have hlt' := hlt p' List.mem_cons_self
            rw [hnil p' (List.mem_cons_of_mem p List.mem_cons_self)] at hlt'
            exact (List.lt_irrefl [] hlt').elim
  subst hone
  rcases hsum with ⟨hno, -⟩ | ⟨c, cs, sum, hmap, hfold, htotal⟩
  · cases hno
  · cases hmap
    cases hfold
    exact htotal

/-! ## Step by step -/

/-- What holds at every step of a reverse pass from `n`, after the visits `vs` and with the visits
`waiting` on the stack. -/
structure Underway (rules : Rules V E) (g : Graph V) (n : Nat) (d : V) (vs waiting : List (Visit V))
    (h : Graph V) : Prop where
  sums : g.withoutDerivs.accumulate rules vs = .ok h
  /-- A visit is at the end of its path, with what arrives there. -/
  at_end : ∀ w, w ∈ vs ∨ w ∈ waiting →
    g.follow n w.path = some w.node ∧ g.delivered rules n d w.path = .ok w.gradient
  /-- No visit so far has failed. -/
  passed : ∀ w ∈ vs, ∃ parts, g.contributions rules w.node w.gradient = .ok parts
  sorted : vs.Pairwise fun v w => v.path < w.path
  before : ∀ v ∈ vs, ∀ w ∈ waiting, v.path < w.path
  apart : waiting.Pairwise fun v w => LeftOf v.path w.path
  /-- The paths that were not visited go on from what waits. -/
  complete : ∀ p m, g.follow n p = some m →
    (∃ v ∈ vs, v.path = p) ∨ ∃ w ∈ waiting, w.path <+: p

namespace Underway

theorem initial (rules : Rules V E) (g : Graph V) (n : Nat) (d : V) :
    g.Underway rules n d [] [⟨[], n, d⟩] g.withoutDerivs where
  sums := rfl
  at_end w hw := by
    rw [List.mem_singleton.1 (hw.resolve_left List.not_mem_nil)]
    exact ⟨rfl, rfl⟩
  passed w hw := by cases hw
  sorted := .nil
  before v hv := by cases hv
  apart := List.pairwise_singleton _ _
  complete p m _ := .inr ⟨_, List.mem_singleton_self _, List.nil_prefix⟩

variable {w : Visit V} {rest : List (Visit V)} {total : V} {parts : List (Nat × V)}

theorem sums_append (hu : g.Underway rules n d vs (w :: rest) h)
    (ht : h.accumulated rules w.node w.gradient = .ok total) :
    g.withoutDerivs.accumulate rules (vs ++ [w]) = .ok (h.withDeriv w.node (some total)) := by
  rw [accumulate_append, hu.sums, Except.ok_bind]
  exact accumulate_cons_eq_ok_iff.2 ⟨total, ht, rfl⟩

theorem sorted_append (hu : g.Underway rules n d vs (w :: rest) h) :
    (vs ++ [w]).Pairwise fun v u => v.path < u.path := by
  refine List.pairwise_append.2 ⟨hu.sorted, List.pairwise_singleton _ _, fun v hv u hm => ?_⟩
  rw [List.mem_singleton.1 hm]
  exact hu.before v hv w List.mem_cons_self

/-- A visit that does not fail puts the visits to its operands in its place. -/
theorem step (hu : g.Underway rules n d vs (w :: rest) h) (hg : g.WellFormed)
    (ht : h.accumulated rules w.node w.gradient = .ok total)
    (hp : g.contributions rules w.node w.gradient = .ok parts) :
    g.Underway rules n d (vs ++ [w]) (w.next parts ++ rest) (h.withDeriv w.node (some total)) where
  sums := hu.sums_append ht
  at_end u hm := by
    rw [List.mem_append, List.mem_append, List.mem_singleton] at hm
    rcases hm with (hm | rfl) | hm | hm
    · exact hu.at_end u (.inl hm)
    · exact hu.at_end u (.inr List.mem_cons_self)
    · obtain ⟨hf, hd⟩ := hu.at_end w (.inr List.mem_cons_self)
      obtain ⟨i, hi, hpath⟩ := Visit.mem_next_iff.1 hm
      rw [hpath, follow_append, hf]
      refine ⟨?_, delivered_append hg hf hd ?_⟩
      · exact (follow_cons hg hp i []).trans (by rw [hi]; rfl)
      · exact delivered_cons_eq_ok_iff.2 ⟨parts, _, _, hp, hi, rfl⟩
    · exact hu.at_end u (.inr (List.mem_cons_of_mem w hm))
  passed u hm := by
    rcases List.mem_append.1 hm with hm | hm
    · exact hu.passed u hm
    · rw [List.mem_singleton.1 hm]
      exact ⟨parts, hp⟩
  sorted := hu.sorted_append
  before v hv u hm := by
    have hrest := (List.pairwise_cons.1 hu.apart).1
    rw [List.mem_append, List.mem_singleton] at hv
    rw [List.mem_append] at hm
    rcases hm with hm | hm
    · obtain ⟨i, -, hpath⟩ := Visit.mem_next_iff.1 hm
      rw [hpath]
      rcases hv with hv | rfl
      · exact List.lt_trans (hu.before v hv w List.mem_cons_self) (lt_append_singleton _ i)
      · exact lt_append_singleton _ i
    · rcases hv with hv | rfl
      · exact hu.before v hv u (List.mem_cons_of_mem w hm)
      · exact (hrest u hm).1
  apart := by
    obtain ⟨hrest, hapart⟩ := List.pairwise_cons.1 hu.apart
    refine List.pairwise_append.2 ⟨w.pairwise_next parts, hapart, fun u hm v hv => ?_⟩
    obtain ⟨i, -, hpath⟩ := Visit.mem_next_iff.1 hm
    rw [hpath]
    exact (hrest v hv).append [i]
  complete p m hf := by
    rcases hu.complete p m hf with ⟨v, hv, hpath⟩ | ⟨u, hm, hprefix⟩
    · exact .inl ⟨v, List.mem_append_left _ hv, hpath⟩
    rcases List.mem_cons.1 hm with rfl | hm
    · obtain ⟨_ | ⟨i, q⟩, rfl⟩ := hprefix
      · exact .inl ⟨u, List.mem_append_right _ (List.mem_singleton_self u),
          (List.append_nil _).symm⟩
      · -- The path goes on through an operand.
        rw [follow_append, (hu.at_end u (.inr List.mem_cons_self)).1] at hf
        obtain ⟨part, hi, -⟩ := Option.bind_eq_some_iff.1 ((follow_cons hg hp i q).symm.trans hf)
        refine .inr ⟨⟨u.path ++ [i], part.1, part.2⟩, ?_, ⟨q, by simp⟩⟩
        exact List.mem_append_left _ (Visit.mem_next_iff.2 ⟨i, hi, rfl⟩)
    · exact .inr ⟨u, List.mem_append_right _ hm, hprefix⟩

theorem same (hu : g.Underway rules n d vs waiting h) : h.withoutDerivs = g.withoutDerivs :=
  (withoutDerivs_accumulate hu.sums).trans (withoutDerivs_withoutDerivs g)

/-- When a visit is about to be made, the paths up to its own are the ones visited and its own. -/
theorem upTo_path_iff (hu : g.Underway rules n d vs (w :: rest) h) {p : List Nat}
    (hp : g.follow n p = some m) :
    (p < w.path ∨ p = w.path) ↔ ∃ v ∈ vs ++ [w], v.path = p := by
  simp only [List.mem_append, List.mem_singleton]
  constructor
  · intro hle
    rcases hu.complete p m hp with ⟨v, hv, hpath⟩ | ⟨u, hm, hprefix⟩
    · exact ⟨v, .inl hv, hpath⟩
    -- Nothing that goes on from a waiting visit lies before it.
    have hnot : ¬ p < u.path := List.not_lt.2 hprefix.le
    rcases List.mem_cons.1 hm with rfl | hm
    · exact ⟨u, .inr rfl, (hle.resolve_left hnot).symm⟩
    · have hlt := ((List.pairwise_cons.1 hu.apart).1 u hm).1
      rcases hle with hle | rfl
      · exact (hnot (List.lt_trans hle hlt)).elim
      · exact (hnot hlt).elim
  · rintro ⟨v, hv | rfl, rfl⟩
    · exact .inl (hu.before v hv w List.mem_cons_self)
    · exact .inr rfl

/-- When a visit was made, the gradient at a node is the sum over the paths to it up to the one of
the visit. -/
theorem sumsAlong (hu : g.Underway rules n d vs (w :: rest) h) (hg : g.WellFormed) (hn : n < g.size)
    (ht : h.accumulated rules w.node w.gradient = .ok total) (m : Nat) :
    g.SumsAlong rules n d (fun p => p < w.path ∨ p = w.path) m
      ((h.withDeriv w.node (some total)).deriv? m) := by
  have hend : ∀ v ∈ vs ++ [w],
      g.follow n v.path = some v.node ∧ g.delivered rules n d v.path = .ok v.gradient := by
    intro v hv
    rw [List.mem_append, List.mem_singleton] at hv
    rcases hv with hv | rfl
    · exact hu.at_end v (.inl hv)
    · exact hu.at_end v (.inr List.mem_cons_self)
  have hsize : ∀ v ∈ vs ++ [w], v.node < g.size := fun v hv =>
    (reaches_iff_exists_path.2 ⟨v.path, (hend v hv).1⟩).lt_size hg hn
  refine ⟨_, ?_, ?_, accumulate_path_sum hsize (fun v hv => (hend v hv).2) (hu.sums_append ht) m⟩
  · rw [List.pairwise_map]
    exact hu.sorted_append.filter _
  · intro p
    simp only [List.mem_map, List.mem_filter, decide_eq_true_eq]
    constructor
    · rintro ⟨v, ⟨hv, rfl⟩, rfl⟩
      have hf := (hend v hv).1
      exact ⟨(hu.upTo_path_iff hf).2 ⟨v, hv, rfl⟩, hf⟩
    · rintro ⟨hle, hf⟩
      obtain ⟨v, hv, rfl⟩ := (hu.upTo_path_iff hf).1 hle
      exact ⟨v, ⟨hv, Option.some.inj ((hend v hv).1.symm.trans hf)⟩, rfl⟩

/-- A pass that fails, unless for want of steps, fails at a visit: either the gradient cannot be
added there, or it is added and nothing can be handed on to the operands. -/
theorem of_sweepStack_error (hg : g.WellFormed) {steps : Nat} {stack : List (Nat × V)}
    {done : List Nat} {e : Fault E} (hu : g.Underway rules n d vs waiting h)
    (hstack : stack = waiting.map Visit.entry)
    (he : (sweepStack rules steps stack h done).outcome = .error e) :
    e = .cyclic ∨ ∃ vs w rest k, g.Underway rules n d vs (w :: rest) k ∧
      ((k.accumulated rules w.node w.gradient = .error e ∧
          (sweepStack rules steps stack h done).graph = k) ∨
        ∃ total, k.accumulated rules w.node w.gradient = .ok total ∧
          g.contributions rules w.node w.gradient = .error e ∧
          (sweepStack rules steps stack h done).graph = k.withDeriv w.node (some total)) := by
  fun_induction sweepStack rules steps stack h done generalizing vs waiting with
  | case1 => cases he
  | case2 => exact .inl (Except.error.inj he).symm
  | case3 steps m b stack h done e' hacc =>
      obtain ⟨w, rest, rfl, hw, -⟩ := List.map_eq_cons_iff.1 hstack.symm
      cases hw
      cases he
      exact .inr ⟨vs, w, rest, h, hu, .inl ⟨hacc, rfl⟩⟩
  | case4 steps m b stack h done total ht h' e' =>
      rename_i hc
      obtain ⟨w, rest, rfl, hw, -⟩ := List.map_eq_cons_iff.1 hstack.symm
      cases hw
      cases he
      rw [contributions_congr ((withoutDerivs_withDeriv h _ _).trans hu.same)] at hc
      exact .inr ⟨vs, w, rest, h, hu, .inr ⟨total, ht, hc, rfl⟩⟩
  | case5 steps m b stack h done total ht h' parts hp =>
      rename_i ih
      obtain ⟨w, rest, rfl, hw, hrest⟩ := List.map_eq_cons_iff.1 hstack.symm
      cases hw
      rw [contributions_congr ((withoutDerivs_withDeriv h _ _).trans hu.same)] at hp
      refine ih (hu.step hg ht hp) ?_ he
      rw [List.map_append, Visit.map_entry_next, hrest]

end Underway

end Graph

end DiffGraph
