import DiffGraph.Gradient
import DiffGraph.Proofs.Engine.Gives
import DiffGraph.Proofs.Engine.PassShapes
import DiffGraph.Proofs.Engine.Preorder
import DiffGraph.Proofs.Gradient.Twins

/-!
# Passes from twin nodes

To differentiate a node is to evaluate it to a number and to run a reverse pass from it. Where that
succeeds for a node it succeeds for its twins, and the marked leaves get the same gradient. A
gradient has the shape of the value of its leaf, and a leaf that is not reached gets none.
-/

namespace DiffGraph

open DiffGraph.Graph

variable {A : DType → Type} [Arithmetic A]

namespace Graph

variable {g h : Graph (Tensor A)} {n m : Nat} {p q : Option Nat}

/-- A pass that succeeds from a node succeeds from its twin and brings the marked leaves the
same. -/
theorem Twins.sweep (ht : Twins g h p q n m) (hg : g.WellFormed) (hh : h.WellFormed)
    (hcg : Coherent (Tensor.rules A) g) (hch : Coherent (Tensor.rules A) h) {v : Tensor A}
    (hv : g.value? n = some v) (hw : h.value? m = some v)
    (hok : (sweep (Tensor.rules A) g n v).outcome = .ok ()) :
    (DiffGraph.sweep (Tensor.rules A) h m v).outcome = .ok () ∧
      ∀ a b x y, p = some a → q = some b → g.IsLeaf a x → h.IsLeaf b y →
        (DiffGraph.sweep (Tensor.rules A) h m v).graph.deriv? b =
          (DiffGraph.sweep (Tensor.rules A) g n v).graph.deriv? a := by
  have hn := lt_size_of_value? hv
  have hm := lt_size_of_value? hw
  obtain ⟨vs, hvs, hacc, -⟩ := visits_of_sweep hok
  obtain ⟨ws, hws, hs⟩ := ht.visits hcg hch hvs hw
  have hshaped : h.Shaped m ((Tensor.rules A).seed v) := ⟨v, hw, rfl⟩
  obtain ⟨k, hk, -⟩ := accumulate_withoutDerivs_eq_ok (hws.shaped hch hshaped)
  rw [sweep_of_visits hh.ascending hm hws hk]
  refine ⟨rfl, fun a b x y ha hb hx hy => ?_⟩
  have hvsize : ∀ w ∈ vs, w.node < g.withoutDerivs.size := by
    simpa using hvs.lt_size hg hn
  have hwsize : ∀ w ∈ ws, w.node < h.withoutDerivs.size := by
    simpa using hws.lt_size hh hm
  exact (deriv?_eq_of_arrivals hacc hk hvsize hwsize (deriv?_withoutDerivs g a)
    (deriv?_withoutDerivs h b) (hs a b x y ha hb hx hy)).symm

end Graph

namespace Gradient

variable {g h g' evaluated : Graph (Tensor A)} {n m : Nat} {p q : Option Nat} {v : Tensor A}

/-- A node is evaluated to a number, and a reverse pass is run from it. -/
structure Passes (g : Graph (Tensor A)) (n : Nat) (v : Tensor A)
    (evaluated final : Graph (Tensor A)) : Prop where
  evaluates : (Action.evalValue (Tensor.rules A) (.node n)).Gives g v evaluated
  rank : v.rank = 0
  succeeds : (sweep (Tensor.rules A) evaluated n v).outcome = .ok ()
  graph : (sweep (Tensor.rules A) evaluated n v).graph = final

theorem gives_runFrom_iff (hn : n < g.size) :
    (runFrom (.node n)).Gives g () g' ↔ ∃ v evaluated, Passes g n v evaluated g' := by
  have hderiv : ∀ v evaluated, (Action.evalValue (Tensor.rules A) (.node n)).Gives g v evaluated →
      ((Action.evalDeriv (Tensor.rules A) (.node n)).Gives evaluated () g' ↔
        (sweep (Tensor.rules A) evaluated n v).outcome = .ok () ∧
          (sweep (Tensor.rules A) evaluated n v).graph = g') := by
    intro v evaluated hv
    obtain ⟨hout, rfl⟩ := Action.gives_iff.1 hv
    rw [Action.gives_iff, Action.run_evalDeriv_node _ _ (Action.value?_of_evalValue hn hout)]
  rw [runFrom, Action.gives_bind_iff]
  refine exists_congr fun v => exists_congr fun evaluated => ?_
  constructor
  · rintro ⟨hv, hrest⟩
    by_cases hrank : v.rank = 0
    · simp only [hrank, ne_eq, not_true_eq_false, if_false] at hrest
      obtain ⟨hok, hgraph⟩ := (hderiv v evaluated hv).1 hrest
      exact ⟨hv, hrank, hok, hgraph⟩
    · simp only [hrank, ne_eq, not_false_eq_true, if_true] at hrest
      obtain ⟨_, _, hfault, -⟩ := Action.gives_bind_iff.1 hrest
      cases (Action.gives_iff.1 hfault).1
  · intro hp
    refine ⟨hp.evaluates, ?_⟩
    simp only [hp.rank, ne_eq, not_true_eq_false, if_false]
    exact (hderiv v evaluated hp.evaluates).2 ⟨hp.succeeds, hp.graph⟩

namespace Passes

variable (hp : Passes g n v evaluated g') (hg : g.WellFormed) (hn : n < g.size)
include hp hg hn

theorem enriches : g.Enriches evaluated := by
  obtain ⟨-, rfl⟩ := Action.gives_iff.1 hp.evaluates
  exact enriches_evalValue hg hn

theorem value? {a : Nat} {x : Tensor A} (ha : g.IsLeaf a x) : g'.value? a = some x := by
  rw [← hp.graph, value?_congr (withoutDerivs_sweep evaluated n v)]
  exact (hp.enriches hg hn).keeps a x ha.value

theorem coherent (hc : Coherent (Tensor.rules A) g) :
    evaluated.WellFormed ∧ Coherent (Tensor.rules A) evaluated ∧
      evaluated.value? n = some v := by
  obtain ⟨hout, rfl⟩ := Action.gives_iff.1 hp.evaluates
  obtain ⟨hwell, hcoherent⟩ := coherent_evalValue hg hc (.node n)
  exact ⟨hwell, hcoherent, Action.value?_of_evalValue hn hout⟩

/-- The gradient of a leaf, zero included, has the shape of its value. -/
theorem shape (hc : Coherent (Tensor.rules A) g) {a : Nat} {x : Tensor A} (ha : g.IsLeaf a x) :
    ((g'.deriv? a).getD x.zerosLike).shape = x.shape := by
  obtain ⟨hwell, hcoherent, hv⟩ := hp.coherent hg hn hc
  obtain ⟨hshaped, -⟩ := sweep_shaped hwell hcoherent hv
  rw [← hp.graph]
  cases hd : (sweep (Tensor.rules A) evaluated n v).graph.deriv? a with
  | none => rfl
  | some d => exact (hshaped a d hd).shape ((hp.enriches hg hn).keeps a x ha.value)

theorem deriv?_eq_none (hc : Coherent (Tensor.rules A) g) {a : Nat} (ha : ¬ g.Reaches n a) :
    g'.deriv? a = none := by
  obtain ⟨hwell, -, hv⟩ := hp.coherent hg hn hc
  rw [← reaches_congr (hp.enriches hg hn).skeleton,
    ← isSome_deriv?_sweep_iff hwell (lt_size_of_value? hv) hp.succeeds, hp.graph,
    Option.not_isSome_iff_eq_none] at ha
  exact ha

/-- What can be differentiated can be differentiated from a twin, with the same gradients at the
marked leaves. -/
theorem twin (ht : Twins g h p q n m) (hh : h.WellFormed) (hm : m < h.size)
    (hcg : Coherent (Tensor.rules A) g) (hch : Coherent (Tensor.rules A) h) :
    ∃ evaluated' h', Passes h m v evaluated' h' ∧
      ∀ a b x y, p = some a → q = some b → g.IsLeaf a x → h.IsLeaf b y →
        h'.deriv? b = g'.deriv? a := by
  have hout := ht.outcome_evalValue hg hh hcg hch hn hm
  rw [(Action.gives_iff.1 hp.evaluates).1] at hout
  have heval := Action.gives_of_outcome hout.symm
  have he := hp.enriches hg hn
  have he' : h.Enriches ((Action.evalValue (Tensor.rules A) (.node m)).run h).graph :=
    enriches_evalValue hh hm
  obtain ⟨hwell, hcoherent, hv⟩ := hp.coherent hg hn hcg
  obtain ⟨hwell', hcoherent'⟩ := coherent_evalValue hh hch (.node m)
  have hw := Action.value?_of_evalValue hm hout.symm
  obtain ⟨hok, hsame⟩ := (ht.continues (.of_enriches he) (.of_enriches he')).sweep hwell hwell'
    hcoherent hcoherent' hv hw hp.succeeds
  refine ⟨_, _, ⟨heval, hp.rank, hok, rfl⟩, fun a b x y ha hb hx hy => ?_⟩
  rw [← hp.graph]
  exact hsame a b x y ha hb ((Continues.of_enriches he).isLeaf hx)
    ((Continues.of_enriches he').isLeaf hy)

end Passes

/-- After passes from twins the marked leaves have the same gradient. -/
theorem Passes.deriv?_eq {a b m : Nat} {h' evaluated' : Graph (Tensor A)} {w x y : Tensor A}
    (hp : Passes g n v evaluated g') (hp' : Passes h m w evaluated' h')
    (ht : Twins g h (some a) (some b) n m) (hg : g.WellFormed) (hh : h.WellFormed)
    (hcg : Coherent (Tensor.rules A) g) (hch : Coherent (Tensor.rules A) h) (hn : n < g.size)
    (hm : m < h.size) (ha : g.IsLeaf a x) (hb : h.IsLeaf b y) : h'.deriv? b = g'.deriv? a := by
  obtain ⟨_, _, hp'', hsame⟩ := hp.twin hg hn ht hh hm hcg hch
  obtain ⟨rfl, rfl⟩ := hp'.evaluates.unique hp''.evaluates
  rw [← hsame a b x y rfl rfl ha hb, ← hp'.graph, ← hp''.graph]

end Gradient

/-! ## Reading gradients -/

/-- The gradient that is read at a leaf: zero where no pass has left one. -/
def Graph.gradient? (g : Graph (Tensor A)) (n : Nat) : Option (Tensor A) :=
  (g.deriv? n).or ((g.value? n).map Tensor.zerosLike)

theorem Graph.gradient?_of_value? {g : Graph (Tensor A)} {n : Nat} {x : Tensor A}
    (hx : g.value? n = some x) : g.gradient? n = some ((g.deriv? n).getD x.zerosLike) := by
  rw [gradient?, hx]
  cases g.deriv? n <;> rfl

namespace Gradient

/-- What is read at some nodes, under their names. -/
def Reads {β : Type} (read : Nat → Option β) (names : Names) (result : List (String × β)) : Prop :=
  (result.map fun r => (r.1, some r.2)) = names.map fun e => (e.1, read e.2)

variable {g h : Graph (Tensor A)}

theorem gives_derivOrZero_iff {n : Nat} {d : Tensor A} :
    (derivOrZero n).Gives g d h ↔ g.gradient? n = some d ∧ g = h := by
  rw [Action.gives_iff, derivOrZero, Action.run_read, gradient?]
  cases g.deriv? n with
  | some t => simp
  | none => cases g.value? n <;> simp

/-- The gradients of all nodes are read from one graph, which stays as it is. -/
theorem gives_derivs_iff {names : Names} {result : List (String × Tensor A)} :
    (derivs names).Gives g result h ↔ Reads g.gradient? names result ∧ g = h := by
  induction names generalizing result with
  | nil =>
      rw [derivs, Reads, Action.gives_pure_iff, eq_comm, List.map_nil, List.map_eq_nil_iff]
  | cons e names ih =>
      rw [derivs, Action.gives_bind_iff]
      constructor
      · rintro ⟨d, k, hread, hx⟩
        obtain ⟨hd, rfl⟩ := gives_derivOrZero_iff.1 hread
        obtain ⟨rest, k, hreads, hpure⟩ := Action.gives_bind_iff.1 hx
        obtain ⟨rfl, rfl⟩ := Action.gives_pure_iff.1 hpure
        obtain ⟨hrest, rfl⟩ := ih.1 hreads
        rw [Reads] at hrest ⊢
        rw [List.map_cons, List.map_cons, hrest, hd]
        exact ⟨rfl, rfl⟩
      · rintro ⟨hresult, rfl⟩
        cases result with
        | nil => cases hresult
        | cons r result =>
            obtain ⟨s, d⟩ := r
            rw [Reads, List.map_cons, List.map_cons, List.cons.injEq, Prod.mk.injEq] at hresult
            obtain ⟨⟨rfl, hd⟩, hrest⟩ := hresult
            refine ⟨d, g, gives_derivOrZero_iff.2 ⟨hd.symm, rfl⟩, ?_⟩
            rw [Action.gives_bind_iff]
            exact ⟨result, g, ih.2 ⟨hrest, rfl⟩, Action.gives_pure_iff.2 ⟨rfl, rfl⟩⟩

end Gradient

end DiffGraph
