import DiffGraph.Graph.Names
import Mathlib.Data.List.Nodup

/-!
# Looking up names

A list of names with what they stand for is read by looking up names in it: the first entry of a
name counts. Where each name stands once, the order of the entries does not matter.
-/

namespace DiffGraph

variable {β γ : Type} {s : String}

theorem lookup_cons_ne {t : String} (hst : s ≠ t) (b : β) (l : List (String × β)) :
    List.lookup s ((t, b) :: l) = l.lookup s := by
  rw [List.lookup_cons, beq_false_of_ne hst]

theorem lookup_map_snd (f : β → γ) (l : List (String × β)) (s : String) :
    (l.map fun e => (e.1, f e.2)).lookup s = (l.lookup s).map f := by
  induction l with
  | nil => rfl
  | cons e l ih =>
      by_cases hs : s = e.1
      · rw [hs, List.map_cons, List.lookup_cons_self, List.lookup_cons_self]
        rfl
      · rw [List.map_cons, lookup_cons_ne hs, lookup_cons_ne hs, ih]

theorem mem_of_lookup {b : β} {l : List (String × β)} (h : l.lookup s = some b) : (s, b) ∈ l := by
  obtain ⟨before, after, rfl, -⟩ := List.lookup_eq_some_iff.1 h
  exact List.mem_append_right _ List.mem_cons_self

/-- Where each name stands once, an entry is what is found under its name. -/
theorem lookup_of_mem {b : β} {l : List (String × β)} (hl : (l.map Prod.fst).Nodup)
    (h : (s, b) ∈ l) : l.lookup s = some b := by
  induction l with
  | nil => cases h
  | cons e l ih =>
      obtain ⟨hnot, hrest⟩ := List.nodup_cons.1 hl
      rcases List.mem_cons.1 h with rfl | h
      · exact List.lookup_cons_self
      · have hs : s ≠ e.1 := fun hs => hnot (hs ▸ List.mem_map_of_mem h)
        rw [lookup_cons_ne hs, ih hrest h]

/-- Lists where each name stands once are permutations of each other if the names are and the same
is found under each. -/
theorem perm_of_lookup {l l' : List (String × β)} (hl : (l.map Prod.fst).Nodup)
    (hperm : (l'.map Prod.fst).Perm (l.map Prod.fst))
    (hlookup : ∀ s ∈ l.map Prod.fst, l'.lookup s = l.lookup s) : l'.Perm l := by
  have hl' := hperm.nodup_iff.2 hl
  refine (List.perm_ext_iff_of_nodup hl'.of_map hl.of_map).2 fun e => ⟨fun he => ?_, fun he => ?_⟩
  · have hs := hperm.subset (List.mem_map_of_mem he)
    exact mem_of_lookup ((hlookup e.1 hs).symm.trans (lookup_of_mem hl' he))
  · have hs := List.mem_map_of_mem (f := Prod.fst) he
    exact mem_of_lookup ((hlookup e.1 hs).trans (lookup_of_mem hl he))

/-- A new name goes behind the others. -/
theorem Names.bind_of_get?_eq_none {n : Nat} {names : Names} (h : names.get? s = none) :
    names.bind s n = names ++ [(s, n)] := by
  induction names with
  | nil => rfl
  | cons e names ih =>
      have hs : s ≠ e.1 := by
        rintro rfl
        rw [get?, List.lookup_cons_self] at h
        cases h
      rw [get?, lookup_cons_ne hs] at h
      rw [bind_cons, if_neg (Ne.symm hs), ih h, List.cons_append]

end DiffGraph
