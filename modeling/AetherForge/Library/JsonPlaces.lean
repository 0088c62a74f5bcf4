import Mathlib.Data.List.DropRight
import AetherForge.Library.GoJson

/-!
# Places in JSON values

Where a field stands in a value, and whether anything is given there.  `encoding/json` decodes the
values of a repeated name one after the other into the same destination, so what counts is the
list of all the values that a destination is given:

* objects that are decoded into a struct add up, and `null` leaves the struct alone;
* objects that are decoded into a map add up too, a later value replacing the one under its key,
  and `null` empties the map;
* an element of an array is decoded over those that earlier arrays had at its index, since the
  last one that was empty or `null`.

* `Place.Missing` — nothing is given at the place;
* `Reading.Zeroed` — what is read from a place where nothing is given stays zero, with the rules
  `zeroed_itself`, `zeroed_whole` and `zeroed_under`;
* `decodeAll_map_entry` — an entry of a map is what the value given last is decoded to afresh.
-/

namespace GoJson

open Go

/-- A place in a value: the value itself, the value as a slice or a map, or a place in a field of
the object, in each element of the array, in each entry of the map. -/
inductive Place
  | itself
  | whole
  | field (name : String) (rest : Place)
  | elem (rest : Place)
  | entry (rest : Place)
  deriving DecidableEq

/-- A field of objects within objects. -/
def Place.fields (names : List String) : Place := names.foldr .field .itself

def Json.isNull : Json → Bool
  | .null => true
  | _ => false

def membersOf : Json → List (String × Json)
  | .obj members => members
  | _ => []

def elementsOf : Json → List Json
  | .arr elems => elems
  | _ => []

/-- The elements of a slice, each by the values that it is given. -/
def elemsGiven (vs : List Json) : List (List Json) :=
  let arrays := (vs.map elementsOf).rtakeWhile fun elems => !elems.isEmpty
  (List.range (arrays.getLast?.getD []).length).map fun i => arrays.filterMap fun elems => elems[i]?

/-- The members that no later one with the same key replaces. -/
def latest : List (String × Json) → List (String × Json)
  | [] => []
  | m :: rest => if m.1 ∈ rest.map Prod.fst then latest rest else m :: latest rest

/-- The entries of a map. -/
def entriesGiven (vs : List Json) : List (String × Json) :=
  latest ((vs.rtakeWhile fun v => !v.isNull).flatMap membersOf)

namespace Place

/-- Nothing is given at the place, or at one of them, by values that are decoded one after the
other into one destination. -/
def Missing : Place → List Json → Prop
  | itself, vs => ∀ v ∈ vs, v.isNull
  | whole, vs => ∀ v ∈ vs.getLast?, v.isNull
  | field name p, vs => p.Missing (valuesOf name (vs.flatMap membersOf))
  | elem p, vs => ∃ ws ∈ elemsGiven vs, p.Missing ws
  | entry p, vs => ∃ m ∈ entriesGiven vs, p.Missing [m.2]

instance decidableMissing : (p : Place) → (vs : List Json) → Decidable (p.Missing vs)
  | itself, vs => inferInstanceAs (Decidable (∀ v ∈ vs, v.isNull))
  | whole, vs => inferInstanceAs (Decidable (∀ v ∈ vs.getLast?, v.isNull))
  | field name p, vs => decidableMissing p (valuesOf name (vs.flatMap membersOf))
  | elem p, vs =>
    have := decidableMissing p
    inferInstanceAs (Decidable (∃ ws ∈ elemsGiven vs, p.Missing ws))
  | entry p, vs =>
    have := decidableMissing p
    inferInstanceAs (Decidable (∃ m ∈ entriesGiven vs, p.Missing [m.2]))

/-- A field of one object. -/
theorem missing_fields_obj (name : String) (members : List (String × Json)) :
    (fields [name]).Missing [.obj members] ↔ ∀ v ∈ valuesOf name members, v.isNull := by
  have hmembers : [Json.obj members].flatMap membersOf = members := List.flatMap_singleton _ _
  simp only [fields, List.foldr_cons, List.foldr_nil, Missing, hmembers]

end Place

/-! ### What is decoded where nothing is given -/

/-- A part of a decoded value, with the place that it is decoded from and its zero value. -/
structure Reading (S : Type) where
  {α : Type}
  place : Place
  read : S → α
  zero : α

namespace Reading

variable {S T : Type}

def itself (zero : S) : Reading S := ⟨.itself, id, zero⟩

def whole (zero : S) : Reading S := ⟨.whole, id, zero⟩

/-- The part of a field. -/
def under (name : String) (get : S → T) (r : Reading T) : Reading S :=
  ⟨.field name r.place, fun s => r.read (get s), r.zero⟩

/-- A part that is zero stays zero when nothing is given at its place. -/
def Zeroed (d : Decoder S) (r : Reading S) : Prop :=
  ∀ vs s t, decodeAll d vs s = some t → r.place.Missing vs → r.read s = r.zero → r.read t = r.zero

end Reading

section Structs

variable {S α β : Type} {strict : Bool} {fields : List (StructField S)}

theorem decodeAll_append (d : Decoder α) (vs ws : List Json) (a : α) :
    decodeAll d (vs ++ ws) a = (decodeAll d vs a).bind (decodeAll d ws) := by
  induction vs generalizing a with
  | nil => rfl
  | cons v vs ih =>
    rw [List.cons_append, decodeAll, decodeAll, Option.bind_assoc]
    exact Option.bind_congr fun a' _ => ih a'

theorem decodeFields_append (ms ns : List (String × Json)) (s : S) :
    decodeFields strict fields (ms ++ ns) s =
      (decodeFields strict fields ms s).bind (decodeFields strict fields ns) := by
  induction ms generalizing s with
  | nil => rfl
  | cons m ms ih =>
    obtain ⟨k, v⟩ := m
    rw [List.cons_append, decodeFields, decodeFields]
    cases fieldNamed fields k with
    | some f => rw [Option.bind_assoc]; exact Option.bind_congr fun s' _ => ih s'
    | none =>
      cases strict with
      | true => rfl
      | false => exact ih s

/-- **Objects that are decoded into a struct add up.** -/
theorem decodeAll_struct {vs : List Json} {s t : S}
    (h : decodeAll (decodeStruct strict fields) vs s = some t) :
    decodeFields strict fields (vs.flatMap membersOf) s = some t := by
  induction vs generalizing s with
  | nil => exact h
  | cons v vs ih =>
    obtain ⟨s', hv, hrest⟩ := Option.bind_eq_some_iff.mp h
    rw [List.flatMap_cons, decodeFields_append]
    cases v with
    | null =>
      cases hv
      exact ih hrest
    | obj members =>
      have hmembers : decodeFields strict fields members s = some s' := hv
      rw [membersOf, hmembers, Option.bind_some]
      exact ih hrest
    | _ => cases hv

/-- `null` leaves it alone. -/
theorem zeroed_itself {d : Decoder S} (hnull : ∀ s, d .null s = some s) (zero : S) :
    (Reading.itself zero).Zeroed d := by
  intro vs s t h hmissing hs
  suffices t = s from this ▸ hs
  induction vs generalizing s with
  | nil =>
    cases h
    rfl
  | cons v vs ih =>
    obtain ⟨hv, hvs⟩ := List.forall_mem_cons.mp hmissing
    cases v with
    | null =>
      obtain ⟨s', hv, hrest⟩ := Option.bind_eq_some_iff.mp h
      cases (hnull s).symm.trans hv
      exact ih s hrest hvs hs
    | _ => cases hv

/-- `null` empties it. -/
theorem zeroed_whole {d : Decoder S} {zero : S} (hnull : ∀ s, d .null s = some zero) :
    (Reading.whole zero).Zeroed d := by
  intro vs s t h hmissing hs
  rcases List.eq_nil_or_concat vs with rfl | ⟨before, v, rfl⟩
  · cases h
    exact hs
  · rw [List.concat_eq_append] at h hmissing
    have hv : v.isNull := hmissing v (by simp)
    rw [decodeAll_append] at h
    obtain ⟨s', -, hlast⟩ := Option.bind_eq_some_iff.mp h
    cases v with
    | null =>
      rw [decodeAll, hnull] at hlast
      exact (Option.some.inj hlast).symm
    | _ => cases hv

/-- **A part of a field.** -/
theorem zeroed_under {name : String} {d : Decoder α} {get : S → α} {set : S → α → S}
    {r : Reading α} (h : r.Zeroed d) (hu : Unambiguous fields)
    (hmem : .of name d get set ∈ fields) (hget : ∀ s a, get (set s a) = a)
    (hapart : Apart name get fields) :
    (r.under name get).Zeroed (decodeStruct strict fields) := by
  intro vs s t hd hmissing hs
  exact h _ _ _ (decodeFields_view hu hmem hget hapart (decodeAll_struct hd)) hmissing hs

end Structs

section Maps

variable {α : Type} {zero : α} {d : Decoder α}

theorem mem_latest_append {k : String} {v : Json} {ms ns : List (String × Json)}
    (h : (k, v) ∈ latest (ms ++ ns)) :
    (k, v) ∈ latest ns ∨ ((k, v) ∈ latest ms ∧ k ∉ ns.map Prod.fst) := by
  induction ms with
  | nil => exact .inl h
  | cons m ms ih =>
    rw [List.cons_append, latest] at h
    rw [latest]
    split at h
    · refine (ih h).imp_right fun hms => ⟨?_, hms.2⟩
      split
      · exact hms.1
      · exact List.mem_cons_of_mem m hms.1
    · rename_i hlast
      rw [List.map_append, List.mem_append, not_or] at hlast
      rw [if_neg hlast.1]
      rcases List.mem_cons.mp h with rfl | h
      · exact .inr ⟨List.mem_cons_self, hlast.2⟩
      · exact (ih h).imp_right fun hms => ⟨List.mem_cons_of_mem m hms.1, hms.2⟩

theorem decodeEntries_get?_of_not_mem {members : List (String × Json)} {m m' : GoMap α}
    (h : decodeEntries zero d members m = some m') {k : String}
    (hk : k ∉ members.map Prod.fst) : m'.get? k = m.get? k := by
  induction members generalizing m with
  | nil =>
    cases h
    rfl
  | cons p members ih =>
    obtain ⟨a, -, hrest⟩ := Option.bind_eq_some_iff.mp h
    rw [List.map_cons, List.mem_cons, not_or] at hk
    rw [ih hrest hk.2, GoMap.get?_set_of_ne _ _ hk.1]

theorem decodeEntries_get?_of_mem {members : List (String × Json)} {m m' : GoMap α}
    (h : decodeEntries zero d members m = some m') {k : String} {v : Json}
    (hkv : (k, v) ∈ latest members) : ∃ a, d v zero = some a ∧ m'.get? k = some a := by
  induction members generalizing m with
  | nil => cases hkv
  | cons p members ih =>
    obtain ⟨a, ha, hrest⟩ := Option.bind_eq_some_iff.mp h
    rw [latest] at hkv
    split at hkv
    · exact ih hrest hkv
    · rename_i hlast
      rcases List.mem_cons.mp hkv with rfl | hkv
      · exact ⟨a, ha, by rw [decodeEntries_get?_of_not_mem hrest hlast, GoMap.get?_set_self]⟩
      · exact ih hrest hkv

/-- **An entry of a map** is what the value given last is decoded to afresh. -/
theorem decodeAll_map_entry {vs : List Json} {m m' : GoMap α}
    (h : decodeAll (decodeMap zero d) vs m = some m') {k : String} {v : Json}
    (hkv : (k, v) ∈ entriesGiven vs) : ∃ a, d v zero = some a ∧ m'.get? k = some a := by
  induction vs using List.reverseRecOn generalizing m' with
  | nil => cases hkv
  | append_singleton vs w ih =>
    rw [decodeAll_append] at h
    obtain ⟨m₁, hm₁, hlast⟩ := Option.bind_eq_some_iff.mp h
    obtain ⟨m₂, hw, heq⟩ := Option.bind_eq_some_iff.mp hlast
    cases heq
    cases w with
    | null =>
      rw [entriesGiven, List.rtakeWhile_concat_neg _ _ _ (by decide)] at hkv
      cases hkv
    | obj members =>
      rw [entriesGiven, List.rtakeWhile_concat_pos _ _ _ rfl, List.flatMap_append,
        List.flatMap_singleton] at hkv
      rcases mem_latest_append hkv with hnew | ⟨hold, hkept⟩
      · exact decodeEntries_get?_of_mem hw hnew
      · obtain ⟨a, ha, hget⟩ := ih hm₁ hold
        exact ⟨a, ha, (decodeEntries_get?_of_not_mem hw hkept).trans hget⟩
    | _ => cases hw

end Maps

end GoJson
