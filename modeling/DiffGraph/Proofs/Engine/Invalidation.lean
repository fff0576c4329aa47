import DiffGraph.Proofs.Graph.WellFormed
import Mathlib.Logic.Relation
import Mathlib.Data.List.Perm.Subperm

/-!
# Invalidation drops the values downstream

The search of an invalidation keeps a stack that may hold a node several times and a list of the
nodes it has met. `Searching` relates the two to reachability along consumers: what was met or
waits lies downstream, and the consumers of what was met were met or wait. When the stack is empty
the nodes met are all the nodes downstream, each once. Nothing is assumed of the graph but that
every consumer is one of its nodes, so the graph may have cycles.
-/

namespace DiffGraph

namespace Graph

variable {V E : Type}

/-- An edge leads from one node to another. -/
def Feeds (g : Graph V) (a m : Nat) : Prop := (m : Int) ∈ g.consumersOf a

/-- One or more edges lead from one node to another. -/
def Downstream (g : Graph V) : Nat → Nat → Prop := Relation.TransGen g.Feeds

/-- The ends of all edges are nodes of the graph. -/
def ConsumersValid (g : Graph V) : Prop :=
  ∀ a, ∀ i ∈ g.consumersOf a, ∃ m : Nat, i = m ∧ m < g.size

/-- A graph is another one without the values of the operators among some nodes. -/
structure Drops (g : Graph V) (P : Nat → Prop) (h : Graph V) : Prop where
  skeleton : h.skeleton = g.skeleton
  deriv? : ∀ m, h.deriv? m = g.deriv? m
  dropped : ∀ m, P m → (g.kind? m).any Kind.isOperator → h.value? m = none
  kept : ∀ m, ¬ P m ∨ (g.kind? m).any Kind.isOperator = false → h.value? m = g.value? m

namespace Drops

variable {g h : Graph V} {P Q : Nat → Prop}

theorem refl (g : Graph V) : g.Drops (fun _ => False) g where
  skeleton := rfl
  deriv? _ := rfl
  dropped _ hm := hm.elim
  kept _ _ := rfl

theorem congr (hd : g.Drops P h) (e : ∀ m, P m ↔ Q m) : g.Drops Q h where
  skeleton := hd.skeleton
  deriv? := hd.deriv?
  dropped m hm := hd.dropped m ((e m).2 hm)
  kept m hm := hd.kept m (hm.imp (fun hq hp => hq ((e m).1 hp)) id)

theorem dropComputed (hd : g.Drops P h) (n : Nat) :
    g.Drops (fun m => m = n ∨ P m) (h.dropComputed n) where
  skeleton := by rw [skeleton_dropComputed, hd.skeleton]
  deriv? m := by rw [deriv?_dropComputed, hd.deriv?]
  dropped m hm hop := by
    rw [value?_dropComputed]
    split
    · rfl
    · rename_i hn
      rcases hm with rfl | hm
      · rw [kind?_congr hd.skeleton] at hn
        exact (hn ⟨rfl, hop⟩).elim
      · exact hd.dropped m hm hop
  kept m hm := by
    rw [value?_dropComputed, kind?_congr hd.skeleton, if_neg]
    · exact hd.kept m (hm.imp (fun hp h => hp (.inr h)) id)
    · rintro ⟨rfl, hop⟩
      rcases hm with hm | hm
      · exact hm (.inl rfl)
      · rw [hm] at hop
        cases hop

end Drops

/-- What holds at every step of the search for the nodes downstream of `n`. -/
structure Searching (g : Graph V) (n : Nat) (stack : List Int) (h : Graph V) (seen : List Int) :
    Prop where
  drops : g.Drops (fun m => (m : Int) ∈ seen) h
  /-- What was met or waits lies downstream. -/
  sound : ∀ i, i ∈ seen ∨ i ∈ stack → ∃ m : Nat, i = m ∧ m < g.size ∧ g.Downstream n m
  /-- The consumers of the node itself were met or wait. -/
  start : ∀ m, g.Feeds n m → (m : Int) ∈ seen ∨ (m : Int) ∈ stack
  /-- The consumers of what was met were met or wait. -/
  closed : ∀ a : Nat, (a : Int) ∈ seen → ∀ m, g.Feeds a m → (m : Int) ∈ seen ∨ (m : Int) ∈ stack
  nodup : seen.Nodup

namespace Searching

variable {g h : Graph V} {n : Nat} {i : Int} {stack seen : List Int}

theorem initial (hg : g.ConsumersValid) (n : Nat) :
    g.Searching n (g.consumersOf n).reverse g [] where
  drops := (Drops.refl g).congr fun m => by simp
  sound i hi := by
    rcases hi with hi | hi
    · cases hi
    · obtain ⟨m, rfl, hm⟩ := hg n i (List.mem_reverse.1 hi)
      exact ⟨m, rfl, hm, .single (List.mem_reverse.1 hi)⟩
  start m hm := .inr (List.mem_reverse.2 hm)
  closed a ha := by cases ha
  nodup := List.nodup_nil

/-- A node that was met before is taken off the stack. -/
theorem skip (hs : g.Searching n (i :: stack) h seen) (hi : i ∈ seen) :
    g.Searching n stack h seen where
  drops := hs.drops
  sound j hj := hs.sound j (hj.imp id (List.mem_cons_of_mem i))
  start m hm := by
    rcases hs.start m hm with h | h
    · exact .inl h
    · rcases List.mem_cons.1 h with h | h
      · exact .inl (h ▸ hi)
      · exact .inr h
  closed a ha m hm := by
    rcases hs.closed a ha m hm with h | h
    · exact .inl h
    · rcases List.mem_cons.1 h with h | h
      · exact .inl (h ▸ hi)
      · exact .inr h
  nodup := hs.nodup

/-- A node that is met for the first time loses its value, and its consumers are put on the
stack. -/
theorem meet (hg : g.ConsumersValid) {a : Nat} (hs : g.Searching n ((a : Int) :: stack) h seen)
    (ha : (a : Int) ∉ seen) :
    g.Searching n ((g.consumersOf a).reverse ++ stack) (h.dropComputed a) ((a : Int) :: seen) where
  drops := (hs.drops.dropComputed a).congr fun m => by rw [List.mem_cons, Int.ofNat_inj]
  sound j hj := by
    obtain ⟨b, hb, -, hd⟩ := hs.sound a (.inr List.mem_cons_self)
    rw [Int.ofNat_inj] at hb
    subst hb
    rcases hj with hj | hj
    · rcases List.mem_cons.1 hj with rfl | hj
      · exact hs.sound _ (.inr List.mem_cons_self)
      · exact hs.sound j (.inl hj)
    · rcases List.mem_append.1 hj with hj | hj
      · obtain ⟨m, rfl, hm⟩ := hg a j (List.mem_reverse.1 hj)
        exact ⟨m, rfl, hm, hd.tail (List.mem_reverse.1 hj)⟩
      · exact hs.sound j (.inr (List.mem_cons_of_mem _ hj))
  start m hm := by
    rcases hs.start m hm with h | h
    · exact .inl (List.mem_cons_of_mem _ h)
    · rcases List.mem_cons.1 h with h | h
      · exact .inl (h ▸ List.mem_cons_self)
      · exact .inr (List.mem_append_right _ h)
  closed b hb m hm := by
    rcases List.mem_cons.1 hb with hb | hb
    · rw [Int.ofNat_inj] at hb
      subst hb
      exact .inr (List.mem_append_left _ (List.mem_reverse.2 hm))
    · rcases hs.closed b hb m hm with h | h
      · exact .inl (List.mem_cons_of_mem _ h)
      · rcases List.mem_cons.1 h with h | h
        · exact .inl (h ▸ List.mem_cons_self)
        · exact .inr (List.mem_append_right _ h)
  nodup := List.nodup_cons.2 ⟨ha, hs.nodup⟩

theorem length_le (hs : g.Searching n stack h seen) : seen.length ≤ g.size := by
  have hsub : seen ⊆ (List.range g.size).map Int.ofNat := by
    intro i hi
    obtain ⟨m, rfl, hm, -⟩ := hs.sound i (.inl hi)
    exact List.mem_map.2 ⟨m, List.mem_range.2 hm, rfl⟩
  simpa using (List.subperm_of_subset hs.nodup hsub).length_le

theorem mem_iff (hs : g.Searching n [] h seen) (m : Nat) :
    (m : Int) ∈ seen ↔ g.Downstream n m := by
  constructor
  · intro hm
    obtain ⟨k, hk, -, hd⟩ := hs.sound m (.inl hm)
    rw [Int.ofNat_inj] at hk
    rwa [hk]
  · intro hd
    induction hd with
    | single hf => exact (hs.start _ hf).resolve_right List.not_mem_nil
    | tail _ hf ih => exact (hs.closed _ ih _ hf).resolve_right List.not_mem_nil

end Searching

end Graph

open DiffGraph.Graph

variable {V E : Type}

/-- The search ends, without a failure, with all the nodes downstream met. -/
theorem searching_invalidateStack {g : Graph V} (hg : g.ConsumersValid) (n fresh : Nat)
    (stack : List Int) (h : Graph V) (seen : List Int) (hs : g.Searching n stack h seen)
    (hf : g.size < fresh + seen.length) :
    (invalidateStack fresh stack h seen : Invalidation V E).outcome = .ok () ∧
      g.Searching n [] (invalidateStack fresh stack h seen : Invalidation V E).graph
        (invalidateStack fresh stack h seen : Invalidation V E).dependents := by
  fun_induction invalidateStack (V := V) (E := E) fresh stack h seen with
  | case1 => exact ⟨rfl, hs⟩
  | case2 fresh i stack h seen hi ih => exact ih (hs.skip (by simpa using hi)) hf
  | case3 i stack h seen hi fresh n' hn' h' n'' hn'' ih =>
      obtain ⟨m, rfl, hm, -⟩ := hs.sound i (.inr List.mem_cons_self)
      have hm' : m < h.size := by rwa [size_congr hs.drops.skeleton]
      have hn : n' = m := Option.some.inj (hn'.symm.trans (place_natCast hm'))
      subst hn
      have hn : n'' = n' := by
        have hc := (check_eq_ok_iff.1 hn'').1
        rw [Ref.node, Ref.index.injEq, Int.ofNat_inj] at hc
        exact hc.symm
      subst hn
      have hc : h'.consumersOf n'' = g.consumersOf n'' := by
        rw [consumersOf_congr (skeleton_dropComputed h n''), consumersOf_congr hs.drops.skeleton]
      have hi' : ((n'' : Nat) : Int) ∉ seen := by simpa using hi
      rw [hc] at ih ⊢
      refine ih (hs.meet hg hi') ?_
      rw [List.length_cons]
      omega
  | case4 i stack h seen hi fresh n' hn' h' e he =>
      obtain ⟨m, rfl, hm, -⟩ := hs.sound i (.inr List.mem_cons_self)
      have hm' : m < h'.size := by
        rwa [size_dropComputed, size_congr hs.drops.skeleton]
      have hc : h'.check (Ref.index m) = (.ok m : Except (Fault E) Nat) := check_node hm'
      rw [hc] at he
      cases he
  | case5 fresh i stack h seen hi hx =>
      obtain ⟨m, rfl, hm, -⟩ := hs.sound i (.inr List.mem_cons_self)
      have hm' : m < h.size := by rwa [size_congr hs.drops.skeleton]
      have hi' : (m : Int) ∉ seen := by simpa using hi
      have hlen := (hs.meet hg hi').length_le
      rw [List.length_cons] at hlen
      exact (hx (fresh - 1) m (by omega) (place_natCast hm')).elim

theorem searching_invalidate {g : Graph V} (hg : g.ConsumersValid) (n : Nat) :
    (invalidate g n : Invalidation V E).outcome = .ok () ∧
      g.Searching n [] (invalidate g n : Invalidation V E).graph
        (invalidate g n : Invalidation V E).dependents :=
  searching_invalidateStack hg n _ _ _ _ (.initial hg n) (by simp)

/-- An invalidation drops the values of the operators downstream, and nothing else. -/
theorem drops_invalidate {g : Graph V} (hg : g.ConsumersValid) (n : Nat) :
    g.Drops (g.Downstream n) (invalidate g n : Invalidation V E).graph :=
  (searching_invalidate hg n).2.drops.congr (searching_invalidate (E := E) hg n).2.mem_iff

theorem invalidate_of_no_consumers {g : Graph V} {n : Nat} (h : g.consumersOf n = []) :
    (invalidate g n : Invalidation V E) = ⟨.ok (), g, []⟩ := by
  rw [invalidate, h, List.reverse_nil, invalidateStack]

theorem Graph.WellFormed.consumersValid {g : Graph V} (hg : g.WellFormed) : g.ConsumersValid := by
  intro a i hi
  obtain ⟨m, rfl, ha⟩ := hg.mem_consumersOf_iff.1 hi
  exact ⟨m, rfl, (hg.lt_size_of_mem_inputsOf ha).2⟩

theorem Graph.WellFormed.feeds_iff {g : Graph V} (hg : g.WellFormed) {a m : Nat} :
    g.Feeds a m ↔ a ∈ g.inputsOf m := by
  rw [Feeds, hg.mem_consumersOf_iff]
  constructor
  · rintro ⟨k, hk, ha⟩
    rw [Int.ofNat_inj] at hk
    rwa [hk]
  · intro ha
    exact ⟨m, rfl, ha⟩

end DiffGraph
