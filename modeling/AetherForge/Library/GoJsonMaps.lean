import Mathlib.Data.Finset.Sort
import Mathlib.Data.String.Basic
import AetherForge.Library.GoJson

/-!
# Go maps as JSON objects

`encoding/json` writes a map in the order of its keys and `nil` as `null`, and reads the members of
an object one after the other into the map.

* `addEntries` — the map that entries build, one after the other;
* `addEntries_sortedEntries` — a map is built from its entries;
* `sortedKeys` — the keys in ascending order;
* `decodeMap_encodeMap` — a map of encoded values decodes to itself.
-/

namespace GoJson

open Go

section Maps

variable {α : Type}

/-- The map that a list of entries builds, later entries replacing earlier ones. -/
def addEntries (m : GoMap α) (l : List (String × α)) : GoMap α :=
  l.foldl (fun m p => m.set p.1 p.2) m

theorem addEntries_cons (m : GoMap α) (p : String × α) (l : List (String × α)) :
    addEntries m (p :: l) = addEntries (m.set p.1 p.2) l := rfl

/-- Keys that are not among the entries keep their value. -/
theorem get?_addEntries_of_not_mem {m : GoMap α} {l : List (String × α)} {k : String}
    (h : k ∉ l.map Prod.fst) : (addEntries m l).get? k = m.get? k := by
  induction l generalizing m with
  | nil => rfl
  | cons p l ih =>
    rw [List.map_cons, List.mem_cons, not_or] at h
    rw [addEntries_cons, ih h.2, GoMap.get?_set_of_ne _ _ h.1]

/-- With distinct keys, each entry is found. -/
theorem get?_addEntries_of_mem {m : GoMap α} {l : List (String × α)} {k : String} {a : α}
    (hl : (l.map Prod.fst).Nodup) (h : (k, a) ∈ l) : (addEntries m l).get? k = some a := by
  induction l generalizing m with
  | nil => cases h
  | cons p l ih =>
    rw [List.map_cons, List.nodup_cons] at hl
    rw [addEntries_cons]
    rcases List.mem_cons.mp h with rfl | h
    · rw [get?_addEntries_of_not_mem hl.1, GoMap.get?_set_self]
    · exact ih hl.2 h

/-- Encoded members are decoded to the entries. -/
theorem decodeEntries_map {zero : α} {d : Decoder α} {encode : α → Json} {l : List (String × α)}
    (h : ∀ p ∈ l, Decodes d (encode p.2) p.2) (m : GoMap α) :
    decodeEntries zero d (l.map fun p => (p.1, encode p.2)) m = some (addEntries m l) := by
  induction l generalizing m with
  | nil => rfl
  | cons p l ih =>
    obtain ⟨hp, hl⟩ := List.forall_mem_cons.mp h
    rw [List.map_cons, decodeEntries, hp, addEntries_cons]
    exact ih hl _

/-- The entries of a map in the order of its keys. -/
def sortedEntries [Inhabited α] (m : GoMap α) : List (String × α) :=
  m.keys.sort.map fun k => (k, m.getD k default)

/-- An entry of a map is found under its key. -/
theorem get?_of_mem_sortedEntries [Inhabited α] {m : GoMap α} {k : String} {a : α}
    (h : (k, a) ∈ sortedEntries m) : m.get? k = some a := by
  obtain ⟨k', hk, heq⟩ := List.mem_map.mp h
  cases heq
  obtain ⟨a, ha⟩ := Option.isSome_iff_exists.mp
    (GoMap.mem_keys_iff.mp ((Finset.mem_sort _).mp hk))
  rw [GoMap.getD, ha, Option.getD_some]

theorem mem_sortedEntries_iff [Inhabited α] {m : GoMap α} {k : String} {a : α} :
    (k, a) ∈ sortedEntries m ↔ m.get? k = some a := by
  constructor
  · exact get?_of_mem_sortedEntries
  · intro ha
    have hk : k ∈ m.keys := by
      rw [GoMap.mem_keys_iff, ha]
      rfl
    refine List.mem_map.mpr ⟨k, (Finset.mem_sort _).mpr hk, ?_⟩
    rw [GoMap.getD, ha, Option.getD_some]

theorem sortedEntries_keys [Inhabited α] (m : GoMap α) :
    (sortedEntries m).map Prod.fst = m.keys.sort := by
  rw [sortedEntries, List.map_map]
  exact List.map_id _

/-- The keys of a map, after `sort.Strings`. -/
def sortedKeys (m : GoMap α) : List String := m.keys.sort

theorem mem_sortedKeys_iff {m : GoMap α} {k : String} : k ∈ sortedKeys m ↔ (m.get? k).isSome := by
  rw [sortedKeys, Finset.mem_sort, GoMap.mem_keys_iff]

theorem sortedKeys_nodup (m : GoMap α) : (sortedKeys m).Nodup := Finset.sort_nodup _ _

theorem sortedKeys_length (m : GoMap α) : (sortedKeys m).length = m.len := Finset.length_sort _

/-- A map is built from its entries. -/
theorem addEntries_sortedEntries [Inhabited α] (m : GoMap α) :
    (addEntries (.make ∅) (sortedEntries m)).entries = m.entries := by
  have hkeys : (sortedEntries m).map Prod.fst = m.keys.sort := sortedEntries_keys m
  refine Finmap.ext_lookup fun k => ?_
  show (addEntries (.make ∅) (sortedEntries m)).get? k = m.get? k
  by_cases hk : k ∈ m.keys
  · obtain ⟨a, ha⟩ := Option.isSome_iff_exists.mp (GoMap.mem_keys_iff.mp hk)
    rw [ha]
    exact get?_addEntries_of_mem (hkeys ▸ Finset.sort_nodup _ _) (mem_sortedEntries_iff.mpr ha)
  · have hnone : m.get? k = none := by
      rw [← Option.not_isSome_iff_eq_none]
      exact fun h => hk (GoMap.mem_keys_iff.mpr h)
    rw [get?_addEntries_of_not_mem, hnone, GoMap.get?_make_empty]
    rw [hkeys]
    exact fun h => hk ((Finset.mem_sort _).mp h)

/-- A map, with `null` for `nil`. -/
def encodeMap [Inhabited α] (encode : α → Json) (m : GoMap α) : Json :=
  if m.isNil then .null else .obj ((sortedEntries m).map fun p => (p.1, encode p.2))

theorem isNil_addEntries (l : List (String × α)) (m : GoMap α) (h : m.isNil = false) :
    (addEntries m l).isNil = false := by
  induction l generalizing m with
  | nil => exact h
  | cons p l ih => exact ih _ rfl

/-- **A map of encoded values decodes to itself**, into a map that holds nothing. -/
theorem decodeMap_encodeMap [Inhabited α] {zero : α} {d : Decoder α} {encode : α → Json}
    {m : GoMap α} (h : ∀ k a, m.get? k = some a → Decodes d (encode a) a) :
    decodeMap zero d (encodeMap encode m) .nil = some m := by
  cases hn : m.isNil with
  | true =>
    rw [encodeMap, if_pos hn]
    obtain ⟨entries, isNil, hnil⟩ := m
    obtain rfl : isNil = true := hn
    obtain rfl := hnil rfl
    rfl
  | false =>
    have hentries : ∀ p ∈ sortedEntries m, Decodes d (encode p.2) p.2 := by
      rintro ⟨k, a⟩ hp
      exact h k a (get?_of_mem_sortedEntries hp)
    have hbuilt : addEntries (.make ∅) (sortedEntries m) = m := by
      have hsame := addEntries_sortedEntries m
      have hmade := isNil_addEntries (sortedEntries m) (.make ∅) rfl
      revert hsame hmade
      generalize addEntries (.make ∅) (sortedEntries m) = built
      obtain ⟨entries, isNil, _⟩ := built
      obtain ⟨entries', isNil', _⟩ := m
      rintro rfl rfl
      obtain rfl : isNil' = false := hn
      rfl
    rw [encodeMap, if_neg (by simp [hn]), decodeMap]
    show decodeEntries zero d _ (.make ∅) = some m
    rw [decodeEntries_map hentries, hbuilt]

end Maps

end GoJson
