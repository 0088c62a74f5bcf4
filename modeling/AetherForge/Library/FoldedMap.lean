import Mathlib.Algebra.BigOperators.Group.List.Basic
import Mathlib.Algebra.GroupWithZero.Nat
import Mathlib.Data.List.Nodup

/-!
# Maps whose keys are compared up to a folding

A map with an order of iteration, in which two keys are the same when a function folds them to
the same value (such as strings compared without regard to case).  That no two entries have the
same key is a field of the structure.

* `find`, `modify`, `mapValues` — look up, change in place, project;
* `insert`, `ofEntries` — put a value under a key, and the map that entries build;
* `modify_eq_self_iff` — when a change changes nothing;
* `values_modify`, `flatMap_modify` — how the values, and what they list, change with one of them.
-/

/-- A map from keys, compared up to `fold`, in the order of its entries. -/
structure FoldedMap {K F : Type} (fold : K → F) (V : Type) where
  entries : List (K × V)
  distinct : (entries.map fun p => fold p.1).Nodup

namespace FoldedMap

open scoped List

variable {K F V W : Type} {fold : K → F}

def empty : FoldedMap fold V := ⟨[], List.nodup_nil⟩

/-- The same keys with other values. -/
def mapValues (m : FoldedMap fold V) (f : V → W) : FoldedMap fold W where
  entries := m.entries.map fun p => (p.1, f p.2)
  distinct := by
    rw [List.map_map]
    exact m.distinct

/-- The values, in the order of the entries. -/
def values (m : FoldedMap fold V) : List V := m.entries.map Prod.snd

/-- The sum over all values. -/
def sumBy (m : FoldedMap fold V) (f : V → ℕ) : ℕ := (m.values.map f).sum

/-- Values that all count for nothing. -/
theorem sumBy_mapValues_zero (m : FoldedMap fold V) {f : V → W} {g : W → ℕ}
    (h : ∀ v, g (f v) = 0) : (m.mapValues f).sumBy g = 0 := by
  refine List.sum_eq_zero fun n hn => ?_
  simp only [values, mapValues, List.map_map, List.mem_map, Function.comp_apply] at hn
  obtain ⟨p, _, rfl⟩ := hn
  exact h p.2

theorem ext_entries {m m' : FoldedMap fold V} (h : m.entries = m'.entries) : m = m' := by
  cases m
  cases m'
  cases h
  rfl

variable [DecidableEq F]

/-- The value of a key. -/
def find (m : FoldedMap fold V) (k : K) : Option V :=
  (m.entries.find? fun p => fold p.1 = fold k).map Prod.snd

/-- Change the value of a key in place. -/
def modify (m : FoldedMap fold V) (k : K) (f : V → V) : FoldedMap fold V where
  entries := m.entries.map fun p => (p.1, if fold p.1 = fold k then f p.2 else p.2)
  distinct := by
    rw [List.map_map]
    exact m.distinct

@[simp] theorem find_empty (k : K) : (empty : FoldedMap fold V).find k = none := rfl

theorem find_congr (m : FoldedMap fold V) {k k' : K} (h : fold k = fold k') :
    m.find k = m.find k' := by
  rw [find, find, h]

theorem mem_of_find {m : FoldedMap fold V} {k : K} {v : V} (h : m.find k = some v) :
    ∃ k', (k', v) ∈ m.entries ∧ fold k' = fold k := by
  obtain ⟨⟨k', v'⟩, hp, rfl⟩ := Option.map_eq_some_iff.mp h
  have hk := List.find?_some hp
  simp only [decide_eq_true_eq] at hk
  exact ⟨k', List.mem_of_find?_eq_some hp, hk⟩

/-- With distinct keys, each entry is found. -/
theorem find_of_mem (m : FoldedMap fold V) {k : K} {v : V} (h : (k, v) ∈ m.entries) :
    m.find k = some v := by
  cases hfind : m.find k with
  | none =>
    have hnot := List.find?_eq_none.mp (Option.map_eq_none_iff.mp hfind) (k, v) h
    simp only [decide_true, not_true] at hnot
  | some w =>
    obtain ⟨k', hw, hk⟩ := mem_of_find hfind
    have heq : (k', w) = (k, v) := List.inj_on_of_nodup_map m.distinct hw h hk
    rw [(Prod.mk.inj heq).2]

theorem find_mapValues (m : FoldedMap fold V) (f : V → W) (k : K) :
    (m.mapValues f).find k = (m.find k).map f := by
  rw [find, find, mapValues, List.find?_map, Option.map_map, Option.map_map]
  rfl

section Insert

/-- The entries after a value is put under a key: in the place of the entry that has the key, or
at the end. -/
def insertEntry (fold : K → F) (k : K) (v : V) : List (K × V) → List (K × V)
  | [] => [(k, v)]
  | p :: rest => if fold p.1 = fold k then (k, v) :: rest else p :: insertEntry fold k v rest

theorem fold_insertEntry (k : K) (v : V) (l : List (K × V)) :
    (insertEntry fold k v l).map (fun p => fold p.1) =
      if fold k ∈ l.map (fun p => fold p.1) then l.map (fun p => fold p.1)
      else l.map (fun p => fold p.1) ++ [fold k] := by
  induction l with
  | nil => rfl
  | cons p rest ih =>
    by_cases hp : fold p.1 = fold k
    · simp only [insertEntry, List.map_cons, hp, List.mem_cons, true_or, if_true]
    · have hne : fold k ≠ fold p.1 := fun h => hp h.symm
      simp only [insertEntry, if_neg hp, List.map_cons, ih, List.mem_cons, hne, false_or]
      split <;> rfl

/-- Put a value under a key. -/
def insert (m : FoldedMap fold V) (k : K) (v : V) : FoldedMap fold V where
  entries := insertEntry fold k v m.entries
  distinct := by
    rw [fold_insertEntry]
    split
    · exact m.distinct
    · rename_i hk
      refine List.Nodup.append m.distinct (List.nodup_singleton _) ?_
      rw [List.disjoint_singleton]
      exact hk

/-- The map that entries build, later ones replacing earlier ones. -/
def ofEntries (l : List (K × V)) : FoldedMap fold V :=
  l.foldl (fun m p => m.insert p.1 p.2) empty

theorem insertEntry_of_not_mem {k : K} {v : V} {l : List (K × V)}
    (h : fold k ∉ l.map fun p => fold p.1) : insertEntry fold k v l = l ++ [(k, v)] := by
  induction l with
  | nil => rfl
  | cons p rest ih =>
    rw [List.map_cons, List.mem_cons, not_or] at h
    rw [insertEntry, if_neg fun heq => h.1 heq.symm, ih h.2, List.cons_append]

/-- **Entries with distinct keys** are those of the map they build. -/
theorem entries_ofEntries {l : List (K × V)} (h : (l.map fun p => fold p.1).Nodup) :
    (ofEntries l : FoldedMap fold V).entries = l := by
  have hbuild : ∀ (m : FoldedMap fold V) (l : List (K × V)),
      ((m.entries ++ l).map fun p => fold p.1).Nodup →
      (l.foldl (fun m p => m.insert p.1 p.2) m).entries = m.entries ++ l := by
    intro m l
    induction l generalizing m with
    | nil =>
      intro _
      exact (List.append_nil _).symm
    | cons p rest ih =>
      intro hnd
      have hp : fold p.1 ∉ m.entries.map fun q => fold q.1 := by
        rw [List.map_append, List.map_cons] at hnd
        intro hmem
        exact List.disjoint_of_nodup_append hnd hmem List.mem_cons_self
      have hinsert : (m.insert p.1 p.2).entries = m.entries ++ [p] := insertEntry_of_not_mem hp
      rw [List.foldl_cons, ih _ (by rwa [hinsert, List.append_assoc]), hinsert, List.append_assoc]
      rfl
  exact hbuild empty l h

/-- A map is built from its own entries. -/
theorem ofEntries_entries (m : FoldedMap fold V) : ofEntries m.entries = m :=
  ext_entries (entries_ofEntries m.distinct)

end Insert

section Modify

variable (m : FoldedMap fold V) {k k' : K} (f : V → V)

theorem find_modify (k' : K) :
    (m.modify k f).find k' = if fold k' = fold k then (m.find k').map f else m.find k' := by
  obtain ⟨entries, distinct⟩ := m
  simp only [find, modify]
  clear distinct
  induction entries with
  | nil => simp
  | cons p rest ih =>
    rw [List.map_cons, List.find?_cons, List.find?_cons]
    by_cases hp : fold p.1 = fold k'
    · simp only [hp, decide_true, Option.map_some]
      by_cases hk : fold k' = fold k <;> simp [hk]
    · simp only [hp, decide_false]
      exact ih

theorem isSome_find_modify (k' : K) : ((m.modify k f).find k').isSome = (m.find k').isSome := by
  rw [find_modify]
  split
  · exact Option.isSome_map
  · rfl

/-- An entry after a change: the changed one, or one that was there. -/
theorem mem_entries_modify {p : K × V} (h : p ∈ (m.modify k f).entries) :
    (∃ v, (p.1, v) ∈ m.entries ∧ fold p.1 = fold k ∧ p.2 = f v) ∨ p ∈ m.entries := by
  obtain ⟨q, hq, rfl⟩ := List.mem_map.mp h
  by_cases hk : fold q.1 = fold k
  · exact .inl ⟨q.2, hq, hk, by simp only [hk, if_true]⟩
  · refine .inr ?_
    simp only [hk, if_false]
    exact hq

/-- A change that changes nothing. -/
theorem modify_eq_self_iff {v : V} (h : m.find k = some v) : m.modify k f = m ↔ f v = v := by
  constructor
  · intro hsame
    have hfind := m.find_modify (k := k) f k
    rw [hsame, if_pos rfl, h, Option.map_some, Option.some.injEq] at hfind
    exact hfind.symm
  · intro hv
    refine ext_entries ((List.map_congr_left fun p hp => ?_).trans (List.map_id' m.entries))
    split
    · rename_i hk
      have hp' := m.find_of_mem hp
      rw [m.find_congr hk, h, Option.some.injEq] at hp'
      rw [← hp', hv, hp']
    · rfl

/-- **The values after a change** of one that is there. -/
theorem values_modify {v : V} (h : m.find k = some v) :
    ∃ before after, m.values = before ++ v :: after ∧
      (m.modify k f).values = before ++ f v :: after := by
  obtain ⟨entries, distinct⟩ := m
  simp only [find] at h
  simp only [values, modify, List.map_map]
  induction entries with
  | nil => cases h
  | cons p rest ih =>
    rw [List.map_cons, List.nodup_cons] at distinct
    rw [List.find?_cons] at h
    simp only [List.map_cons, Function.comp_apply]
    by_cases hp : fold p.1 = fold k
    · simp only [hp, decide_true, Option.map_some, Option.some.injEq] at h
      subst h
      refine ⟨[], rest.map Prod.snd, rfl, ?_⟩
      -- no other entry has the key
      have hrest : rest.map (Prod.snd ∘ fun q : K × V =>
          (q.1, if fold q.1 = fold k then f q.2 else q.2)) = rest.map Prod.snd := by
        refine List.map_congr_left fun q hq => ?_
        have hne : fold q.1 ≠ fold k := by
          intro heq
          exact distinct.1 (List.mem_map.mpr ⟨q, hq, heq.trans hp.symm⟩)
        simp only [Function.comp_apply, if_neg hne]
      rw [if_pos hp, hrest, List.nil_append]
    · simp only [hp, decide_false] at h
      obtain ⟨before, after, hvalues, hchanged⟩ := ih distinct.2 h
      refine ⟨p.2 :: before, after, ?_, ?_⟩
      · rw [hvalues, List.cons_append]
      · rw [if_neg hp, hchanged, List.cons_append]

/-- **What the values list after a change**, up to order. -/
theorem flatMap_modify {v : V} (h : m.find k = some v) (g : V → List W) :
    ((m.modify k f).values.flatMap g ++ g v).Perm (m.values.flatMap g ++ g (f v)) := by
  obtain ⟨before, after, hvalues, hchanged⟩ := m.values_modify f h
  rw [hvalues, hchanged]
  simp only [List.flatMap_append, List.flatMap_cons, List.append_assoc]
  apply List.Perm.append_left
  calc g (f v) ++ (after.flatMap g ++ g v)
      _ ~ g (f v) ++ (g v ++ after.flatMap g) := List.perm_append_comm.append_left _
      _ ~ g v ++ (g (f v) ++ after.flatMap g) := List.perm_append_comm_assoc _ _ _
      _ ~ g v ++ (after.flatMap g ++ g (f v)) := List.perm_append_comm.append_left _

/-- A change that what the values list does not show. -/
theorem flatMap_modify_same {g : V → List W} (h : ∀ v, g (f v) = g v) :
    (m.modify k f).values.flatMap g = m.values.flatMap g := by
  simp only [values, modify, List.map_map, List.flatMap_map]
  refine List.flatMap_congr fun p _ => ?_
  simp only [Function.comp_apply]
  split
  · exact h p.2
  · rfl

end Modify

end FoldedMap
