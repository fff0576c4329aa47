import DiffGraph.Proofs.Gradient.Passes

/-!
# Building an expression twice

A plain expression is made of names in scope, constants and operators. Built into two graphs, with
handles that are twins, it gives nodes that are twins; whether it can be built at all depends only
on its constants. Only the names that the expression depends on have to be bound to twins.
-/

namespace DiffGraph

open DiffGraph.Graph

variable {D V E : Type}

/-! ## Plain expressions -/

namespace Expression

/-- Names in scope, constants and operators on them. -/
def Plain : List String → Expression D → Prop
  | scope, .name s => s ∈ scope
  | _, .const _ => True
  | scope, .share s bound body => bound.Plain scope ∧ body.Plain (s :: scope)
  | scope, .unary _ arg => arg.Plain scope
  | scope, .binary _ lhs rhs | scope, .sub lhs rhs => lhs.Plain scope ∧ rhs.Plain scope
  | _, .var _ _ | _, .emptyVar _ | _, .ref _ | _, .letIn _ _ _ => False

/-- The names that the node of an expression depends on. What is kept under a name counts only as
far as the name is used. -/
def uses : Expression D → List String
  | .name s => [s]
  | .share s bound body => body.uses.flatMap fun t => if t = s then bound.uses else [t]
  | .unary _ arg => arg.uses
  | .binary _ lhs rhs | .sub lhs rhs => lhs.uses ++ rhs.uses
  | .const _ | .var _ _ | .emptyVar _ | .ref _ | .letIn _ _ _ => []

end Expression

theorem Expression.Plain.mono {e : Expression D} {scope scope' : List String}
    (he : e.Plain scope) (hscope : scope ⊆ scope') : e.Plain scope' := by
  induction e generalizing scope scope' with
  | name s => exact hscope he
  | const d => trivial
  | var s d | emptyVar s | ref r | letIn s l r => exact he.elim
  | share s l r ihl ihr =>
      exact ⟨ihl he.1 hscope, ihr he.2 (List.cons_subset_cons s hscope)⟩
  | unary op e ih => exact ih he hscope
  | binary op l r ihl ihr | sub l r ihl ihr => exact ⟨ihl he.1 hscope, ihr he.2 hscope⟩

theorem Expression.Plain.uses_subset {e : Expression D} {scope : List String}
    (he : e.Plain scope) : e.uses ⊆ scope := by
  induction e generalizing scope with
  | name s => exact List.cons_subset.2 ⟨he, List.nil_subset _⟩
  | const d => exact List.nil_subset _
  | var s d | emptyVar s | ref r | letIn s l r => exact he.elim
  | share s l r ihl ihr =>
      intro u hu
      obtain ⟨t, ht, hu⟩ := List.mem_flatMap.1 hu
      split at hu
      · exact ihl he.1 hu
      · rename_i hts
        rw [List.mem_singleton.1 hu]
        exact (List.mem_cons.1 (ihr he.2 ht)).resolve_left hts
  | unary op e ih => exact ih he
  | binary op l r ihl ihr | sub l r ihl ihr =>
      exact List.append_subset.2 ⟨ihl he.1, ihr he.2⟩

/-- The names are handles of nodes of the graph. -/
def Handles.Cover (handles : Handles) (g : Graph V) (scope : List String) : Prop :=
  ∀ s ∈ scope, ∃ a, handles.lookup s = some (.node a) ∧ a < g.size

namespace Handles

variable {ρ σ : Handles} {g h : Graph V} {scope : List String}

theorem Cover.mono (hρ : ρ.Cover g scope) (hsize : g.size ≤ h.size) : ρ.Cover h scope := by
  intro s hs
  obtain ⟨a, ha, hlt⟩ := hρ s hs
  exact ⟨a, ha, Nat.lt_of_lt_of_le hlt hsize⟩

theorem Cover.cons (hρ : ρ.Cover g scope) {n : Nat} (hn : n < g.size) (s : String) :
    Handles.Cover ((s, .node n) :: ρ) g (s :: scope) := by
  intro t ht
  by_cases hts : t = s
  · rw [hts, List.lookup_cons_self]
    exact ⟨n, rfl, hn⟩
  · rw [lookup_cons_ne hts]
    exact hρ t ((List.mem_cons.1 ht).resolve_left hts)

/-- Two handles that a name stands for are twins. -/
def Twins (ρ σ : Handles) (g h : Graph V) (p q : Option Nat) (names : List String) : Prop :=
  ∀ s ∈ names, ∀ a b, ρ.lookup s = some (.node a) → σ.lookup s = some (.node b) →
    g.Twins h p q a b

end Handles

/-! ## Operators on twins -/

namespace Graph

variable {g h : Graph V} {p q : Option Nat} {a b : Nat}

theorem kind?_appendOperator_self (g : Graph V) (kind : Kind) (operands : List Nat) :
    (g.appendOperator kind operands).kind? g.size = some kind := by
  rw [kind?_appendOperator, if_pos rfl]

theorem inputsOf_appendOperator_self (g : Graph V) (kind : Kind) (operands : List Nat) :
    (g.appendOperator kind operands).inputsOf g.size = operands := by
  rw [inputsOf_appendOperator, if_pos rfl]

theorem Twins.appendUnary (ht : g.Twins h p q a b) (op : Unary) :
    (g.appendOperator (.unary op) [a]).Twins (h.appendOperator (.unary op) [b]) p q
      g.size h.size :=
  .unary (kind?_appendOperator_self g _ _) (inputsOf_appendOperator_self g _ _)
    (kind?_appendOperator_self h _ _) (inputsOf_appendOperator_self h _ _)
    (ht.continues (.appendOperator g _ _) (.appendOperator h _ _))

theorem Twins.appendBinary {a' b' : Nat} (ht : g.Twins h p q a b) (ht' : g.Twins h p q a' b')
    (op : Binary) :
    (g.appendOperator (.binary op) [a, a']).Twins (h.appendOperator (.binary op) [b, b']) p q
      g.size h.size :=
  .binary (kind?_appendOperator_self g _ _) (inputsOf_appendOperator_self g _ _)
    (kind?_appendOperator_self h _ _) (inputsOf_appendOperator_self h _ _)
    (ht.continues (.appendOperator g _ _) (.appendOperator h _ _))
    (ht'.continues (.appendOperator g _ _) (.appendOperator h _ _))

end Graph

/-! ## What building gives -/

namespace Expression

section Gives

variable {conversion : Conversion D V E} {ρ : Handles} {g g' : Graph V} {l r : Expression D}
  {ref : Ref}

theorem gives_const_iff {d : D} :
    ((const d).build conversion ρ).Gives g ref g' ↔
      ∃ v, conversion.any d = .ok v ∧ ref = .node g.size ∧
        g' = g.append (.fresh .const (some v)) := by
  simp only [build, Action.gives_bind_iff, Action.gives_pure_iff, Action.gives_constant_iff]
  constructor
  · rintro ⟨_, _, ⟨v, hv, rfl, rfl⟩, rfl, rfl⟩
    exact ⟨v, hv, rfl, rfl⟩
  · rintro ⟨v, hv, rfl, rfl⟩
    exact ⟨_, _, ⟨v, hv, rfl, rfl⟩, rfl, rfl⟩

theorem gives_share_iff {s : String} :
    ((share s l r).build conversion ρ).Gives g ref g' ↔
      ∃ a h, (l.build conversion ρ).Gives g a h ∧
        (r.build conversion ((s, a) :: ρ)).Gives h ref g' := by
  rw [build, Action.gives_bind_iff]

theorem gives_unary_iff {op : Unary} :
    ((unary op l).build conversion ρ).Gives g ref g' ↔
      ∃ a h n, (l.build conversion ρ).Gives g a h ∧
        (Action.unary op a : Action V E Nat).Gives h n g' ∧ ref = .node n := by
  simp only [build, Action.gives_bind_iff, Action.gives_pure_iff]
  constructor
  · rintro ⟨a, h, hl, n, _, hop, rfl, rfl⟩
    exact ⟨a, h, n, hl, hop, rfl⟩
  · rintro ⟨a, h, n, hl, hop, rfl⟩
    exact ⟨a, h, hl, n, g', hop, rfl, rfl⟩

/-- Operators of two operands are built alike. -/
theorem gives_operands_iff {f : Ref → Ref → Action V E Nat} :
    (do
      let a ← l.build conversion ρ
      let b ← r.build conversion ρ
      return Ref.node (← f a b) : Action V E Ref).Gives g ref g' ↔
      ∃ a h b k n, (l.build conversion ρ).Gives g a h ∧ (r.build conversion ρ).Gives h b k ∧
        (f a b).Gives k n g' ∧ ref = .node n := by
  simp only [Action.gives_bind_iff, Action.gives_pure_iff]
  constructor
  · rintro ⟨a, h, hl, b, k, hr, n, _, hop, rfl, rfl⟩
    exact ⟨a, h, b, k, n, hl, hr, hop, rfl⟩
  · rintro ⟨a, h, b, k, n, hl, hr, hop, rfl⟩
    exact ⟨a, h, hl, b, k, hr, n, g', hop, rfl, rfl⟩

theorem gives_binary_iff {op : Binary} :
    ((binary op l r).build conversion ρ).Gives g ref g' ↔
      ∃ a h b k n, (l.build conversion ρ).Gives g a h ∧ (r.build conversion ρ).Gives h b k ∧
        (Action.binary op a b : Action V E Nat).Gives k n g' ∧ ref = .node n :=
  gives_operands_iff

theorem gives_sub_iff :
    ((sub l r).build conversion ρ).Gives g ref g' ↔
      ∃ a h b k n, (l.build conversion ρ).Gives g a h ∧ (r.build conversion ρ).Gives h b k ∧
        (Action.sub a b : Action V E Nat).Gives k n g' ∧ ref = .node n :=
  gives_operands_iff

end Gives

end Expression

/-! ## Building twice -/

namespace Expression

/-- An expression that was built into one graph can be built into another one. Where the names that
it depends on stand for twins, its nodes are twins. -/
structure Paired (conversion : Conversion D V E) (e : Expression D) (ρ σ : Handles)
    (g h : Graph V) (n m : Nat) (g' h' : Graph V) : Prop where
  left_lt : n < g'.size
  right_lt : m < h'.size
  left : g.Continues g'
  right : h.Continues h'
  gives : (e.build conversion σ).Gives h (.node m) h'
  twins : ∀ p q, (∀ a ∈ p, a < g.size) → (∀ b ∈ q, b < h.size) →
    ρ.Twins σ g h p q e.uses → g'.Twins h' p q n m

variable {conversion : Conversion D V E} {ρ σ : Handles} {g h g₁ h₁ g₂ h₂ : Graph V}
  {n m n₁ m₁ n₂ m₂ : Nat} {l r e : Expression D}

theorem paired_name {s : String} (hρ : ρ.lookup s = some (.node n)) (hn : n < g.size)
    (hσ : σ.lookup s = some (.node m)) (hm : m < h.size) :
    Paired conversion (.name s) ρ σ g h n m g h where
  left_lt := hn
  right_lt := hm
  left := .refl g
  right := .refl h
  gives := by
    rw [build, hσ]
    exact Action.gives_pure_iff.2 ⟨rfl, rfl⟩
  twins p q _ _ ht := ht s List.mem_cons_self n m hρ hσ

theorem paired_const {d : D} {v : V} (hd : conversion.any d = .ok v) (ρ σ : Handles)
    (g h : Graph V) :
    Paired conversion (.const d) ρ σ g h g.size h.size (g.append (.fresh .const (some v)))
      (h.append (.fresh .const (some v))) where
  left_lt := by simp
  right_lt := by simp
  left := .append_fresh g rfl _
  right := .append_fresh h rfl _
  gives := gives_const_iff.2 ⟨v, hd, rfl, rfl⟩
  twins p q hp hq _ := by
    refine .leaf (isLeaf_append g (.inl rfl) v) (isLeaf_append h (.inl rfl) v) ?_
    exact iff_of_false (fun e => Nat.lt_irrefl _ (hp _ e.symm))
      fun e => Nat.lt_irrefl _ (hq _ e.symm)

theorem Paired.unary (he : Paired conversion e ρ σ g h n m g₁ h₁) (op : Unary) :
    Paired conversion (.unary op e) ρ σ g h g₁.size h₁.size
      (g₁.appendOperator (.unary op) [n]) (h₁.appendOperator (.unary op) [m]) where
  left_lt := by simp
  right_lt := by simp
  left := he.left.trans (.appendOperator g₁ _ _)
  right := he.right.trans (.appendOperator h₁ _ _)
  gives := gives_unary_iff.2
    ⟨_, _, _, he.gives, Action.gives_unary_iff.2 ⟨m, rfl, he.right_lt, rfl, rfl⟩, rfl⟩
  twins p q hp hq ht := (he.twins p q hp hq ht).appendUnary op

/-- The names are bound to twins still when further nodes have been built. -/
theorem Paired.twins_continues (hl : Paired conversion l ρ σ g h n₁ m₁ g₁ h₁)
    (hr : Paired conversion r ρ σ g₁ h₁ n₂ m₂ g₂ h₂) {p q : Option Nat} (hp : ∀ a ∈ p, a < g.size)
    (hq : ∀ b ∈ q, b < h.size) (ht : ρ.Twins σ g h p q (l.uses ++ r.uses)) :
    g₂.Twins h₂ p q n₁ m₁ ∧ g₂.Twins h₂ p q n₂ m₂ := by
  have htl := hl.twins p q hp hq fun s hs => ht s (List.mem_append_left _ hs)
  refine ⟨htl.continues hr.left hr.right, hr.twins p q ?_ ?_ ?_⟩
  · exact fun a ha => Nat.lt_of_lt_of_le (hp a ha) hl.left.size_le
  · exact fun b hb => Nat.lt_of_lt_of_le (hq b hb) hl.right.size_le
  · exact fun s hs a b ha hb =>
      (ht s (List.mem_append_right _ hs) a b ha hb).continues hl.left hl.right

theorem Paired.binary (hl : Paired conversion l ρ σ g h n₁ m₁ g₁ h₁)
    (hr : Paired conversion r ρ σ g₁ h₁ n₂ m₂ g₂ h₂) (op : Binary) :
    Paired conversion (.binary op l r) ρ σ g h g₂.size h₂.size
      (g₂.appendOperator (.binary op) [n₁, n₂]) (h₂.appendOperator (.binary op) [m₁, m₂]) where
  left_lt := by simp
  right_lt := by simp
  left := (hl.left.trans hr.left).trans (.appendOperator g₂ _ _)
  right := (hl.right.trans hr.right).trans (.appendOperator h₂ _ _)
  gives := by
    have hm₁ : m₁ < h₂.size := Nat.lt_of_lt_of_le hl.right_lt hr.right.size_le
    exact gives_binary_iff.2 ⟨_, _, _, _, _, hl.gives, hr.gives,
      Action.gives_binary_iff.2 ⟨m₁, m₂, rfl, rfl, hm₁, hr.right_lt, rfl, rfl⟩, rfl⟩
  twins p q hp hq ht := by
    obtain ⟨htl, htr⟩ := hl.twins_continues hr hp hq ht
    exact htl.appendBinary htr op

theorem Paired.sub (hl : Paired conversion l ρ σ g h n₁ m₁ g₁ h₁)
    (hr : Paired conversion r ρ σ g₁ h₁ n₂ m₂ g₂ h₂) :
    Paired conversion (.sub l r) ρ σ g h (g₂.size + 1) (h₂.size + 1)
      ((g₂.appendOperator (.unary .neg) [n₂]).appendOperator (.binary .add) [n₁, g₂.size])
      ((h₂.appendOperator (.unary .neg) [m₂]).appendOperator (.binary .add) [m₁, h₂.size]) where
  left_lt := by simp
  right_lt := by simp
  left := (hl.left.trans hr.left).trans ((Continues.appendOperator g₂ _ _).trans
    (.appendOperator _ _ _))
  right := (hl.right.trans hr.right).trans ((Continues.appendOperator h₂ _ _).trans
    (.appendOperator _ _ _))
  gives := by
    have hm₁ : m₁ < h₂.size := Nat.lt_of_lt_of_le hl.right_lt hr.right.size_le
    exact gives_sub_iff.2 ⟨_, _, _, _, _, hl.gives, hr.gives, Action.gives_sub_iff.2
      ⟨m₁, m₂, rfl, rfl, Nat.lt_succ_of_lt hm₁, hr.right_lt, rfl, rfl⟩, rfl⟩
  twins p q hp hq ht := by
    obtain ⟨htl, htr⟩ := hl.twins_continues hr hp hq ht
    have hneg := htr.appendUnary .neg
    have hl' := htl.continues (.appendOperator g₂ (.unary .neg) [n₂])
      (.appendOperator h₂ (.unary .neg) [m₂])
    simpa only [size_appendOperator] using hl'.appendBinary hneg .add

theorem Paired.share {s : String} (hl : Paired conversion l ρ σ g h n₁ m₁ g₁ h₁)
    (hr : Paired conversion r ((s, .node n₁) :: ρ) ((s, .node m₁) :: σ) g₁ h₁ n₂ m₂ g₂ h₂) :
    Paired conversion (.share s l r) ρ σ g h n₂ m₂ g₂ h₂ where
  left_lt := hr.left_lt
  right_lt := hr.right_lt
  left := hl.left.trans hr.left
  right := hl.right.trans hr.right
  gives := gives_share_iff.2 ⟨_, _, hl.gives, hr.gives⟩
  twins p q hp hq ht := by
    refine hr.twins p q ?_ ?_ fun t htr a b ha hb => ?_
    · exact fun a ha => Nat.lt_of_lt_of_le (hp a ha) hl.left.size_le
    · exact fun b hb => Nat.lt_of_lt_of_le (hq b hb) hl.right.size_le
    · by_cases hts : t = s
      · subst hts
        rw [List.lookup_cons_self, Option.some.injEq, Ref.node_inj] at ha hb
        rw [← ha, ← hb]
        refine hl.twins p q hp hq fun u hu => ht u ?_
        exact List.mem_flatMap.2 ⟨t, htr, by rwa [if_pos rfl]⟩
      · rw [lookup_cons_ne hts] at ha hb
        refine (ht t ?_ a b ha hb).continues hl.left hl.right
        exact List.mem_flatMap.2 ⟨t, htr, by rw [if_neg hts]; exact List.mem_singleton_self t⟩

/-- A plain expression that could be built into a graph can be built into any other one where its
names are handles. -/
theorem exists_paired {scope : List String} (he : e.Plain scope) (hρ : ρ.Cover g scope)
    (hσ : σ.Cover h scope) {ref : Ref} (hb : (e.build conversion ρ).Gives g ref g₁) :
    ∃ n m h₁, ref = .node n ∧ Paired conversion e ρ σ g h n m g₁ h₁ := by
  induction e generalizing scope ρ σ g h ref g₁ with
  | name s =>
      obtain ⟨a, ha, hlta⟩ := hρ s he
      obtain ⟨b, hb', hltb⟩ := hσ s he
      rw [build, ha] at hb
      obtain ⟨rfl, rfl⟩ := Action.gives_pure_iff.1 hb
      exact ⟨a, b, h, rfl, paired_name ha hlta hb' hltb⟩
  | const d =>
      obtain ⟨v, hv, rfl, rfl⟩ := gives_const_iff.1 hb
      exact ⟨_, _, _, rfl, paired_const hv ρ σ g h⟩
  | var s d | emptyVar s | ref r | letIn s l r => exact he.elim
  | share s l r ihl ihr =>
      obtain ⟨_, k, hl, hr⟩ := gives_share_iff.1 hb
      obtain ⟨n₁, m₁, h₁, rfl, hpl⟩ := ihl he.1 hρ hσ hl
      obtain ⟨n₂, m₂, h₂, rfl, hpr⟩ := ihr he.2
        ((hρ.mono hpl.left.size_le).cons hpl.left_lt s)
        ((hσ.mono hpl.right.size_le).cons hpl.right_lt s) hr
      exact ⟨n₂, m₂, h₂, rfl, hpl.share hpr⟩
  | unary op e ih =>
      obtain ⟨_, k, _, harg, hop, rfl⟩ := gives_unary_iff.1 hb
      obtain ⟨n, m, h₁, rfl, hp⟩ := ih he hρ hσ harg
      obtain ⟨rfl, rfl⟩ := hop.unique (Action.gives_unary_iff.2 ⟨n, rfl, hp.left_lt, rfl, rfl⟩)
      exact ⟨_, _, _, rfl, hp.unary op⟩
  | binary op l r ihl ihr =>
      obtain ⟨_, k, _, k', _, hl, hr, hop, rfl⟩ := gives_binary_iff.1 hb
      obtain ⟨n₁, m₁, h₁, rfl, hpl⟩ := ihl he.1 hρ hσ hl
      obtain ⟨n₂, m₂, h₂, rfl, hpr⟩ := ihr he.2 (hρ.mono hpl.left.size_le)
        (hσ.mono hpl.right.size_le) hr
      have hn₁ : n₁ < k'.size := Nat.lt_of_lt_of_le hpl.left_lt hpr.left.size_le
      obtain ⟨rfl, rfl⟩ := hop.unique
        (Action.gives_binary_iff.2 ⟨n₁, n₂, rfl, rfl, hn₁, hpr.left_lt, rfl, rfl⟩)
      exact ⟨_, _, _, rfl, hpl.binary hpr op⟩
  | sub l r ihl ihr =>
      obtain ⟨_, k, _, k', _, hl, hr, hop, rfl⟩ := gives_sub_iff.1 hb
      obtain ⟨n₁, m₁, h₁, rfl, hpl⟩ := ihl he.1 hρ hσ hl
      obtain ⟨n₂, m₂, h₂, rfl, hpr⟩ := ihr he.2 (hρ.mono hpl.left.size_le)
        (hσ.mono hpl.right.size_le) hr
      have hn₁ : n₁ < k'.size := Nat.lt_of_lt_of_le hpl.left_lt hpr.left.size_le
      obtain ⟨rfl, rfl⟩ := hop.unique (Action.gives_sub_iff.2
        ⟨n₁, n₂, rfl, rfl, Nat.lt_succ_of_lt hn₁, hpr.left_lt, rfl, rfl⟩)
      exact ⟨_, _, _, rfl, hpl.sub hpr⟩

end Expression

theorem Expression.changes_build (conversion : Conversion D V E) (rules : Rules V E)
    (e : Expression D) (handles : Handles) : (e.build conversion handles).Changes rules := by
  induction e generalizing handles with
  | name s =>
      rw [build]
      split
      · exact .pure _
      · exact .bind (fun g => .refl) fun n => .pure _
  | const d => exact .bind (changes_constant rules _ d) fun n => .pure _
  | var s d => exact .bind (changes_variableOf conversion rules _ s d) fun n => .pure _
  | emptyVar s => exact .bind (changes_emptyVariable rules s) fun n => .pure _
  | ref r => exact .pure r
  | letIn s l r ihl ihr =>
      exact .bind (ihl handles) fun a => .bind (changes_setName rules a s) fun _ => ihr handles
  | share s l r ihl ihr => exact .bind (ihl handles) fun a => ihr _
  | unary op e ih =>
      exact .bind (ih handles) fun a => .bind (changes_unary rules op a) fun n => .pure _
  | binary op l r ihl ihr =>
      exact .bind (ihl handles) fun a => .bind (ihr handles) fun b =>
        .bind (changes_binary rules op a b) fun n => .pure _
  | sub l r ihl ihr =>
      exact .bind (ihl handles) fun a => .bind (ihr handles) fun b =>
        .bind (changes_sub rules a b) fun n => .pure _

end DiffGraph
