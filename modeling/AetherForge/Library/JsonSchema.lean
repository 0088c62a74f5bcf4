import Mathlib.Data.List.Forall2
import AetherForge.Library.JsonPlaces

/-!
# Schemas of JSON values

A schema says two things of a value: whether it fits, member by member, and where something has to
be given in it.  The decoders of `encoding/json` only ask for the first.

* `Schema` — the schemas of the basic and composite types;
* `Judges` — a decoder accepts the values that fit a schema, whatever it decodes them into;
* `judges_slice`, `judges_map`, `judges_struct`, `judges_openStruct` — the rules for composite
  types.
-/

namespace GoJson

open Go

/-! ### Schemas -/

/-- What a schema says of a value: that its parts are of the right kind, how the value itself is
given, and which fields in it are required. -/
structure Schema where
  Fits : Json → Prop
  place : Place
  required : List Place

/-- A field of an object. -/
structure SchemaField where
  name : String
  schema : Schema
  required : Bool

/-- The required places that an object has by a field: the field and what is required in it. -/
def SchemaField.places (f : SchemaField) : List Place :=
  if f.required then (f.schema.place :: f.schema.required).map (.field f.name) else []

namespace Schema

/-- A value without parts; `null` fits. -/
def leaf (fits : Json → Prop) : Schema := ⟨fun v => v = .null ∨ fits v, .itself, []⟩

def boolean : Schema := leaf fun v => ∃ b, v = .bool b

def string : Schema := leaf fun v => ∃ s, v = .str s

def integer : Schema := leaf fun v => ∃ n, v = .int n ∧ InInt64 n

def number : Schema :=
  leaf fun v => ∃ q, (v = .dec q ∨ ∃ n : ℤ, v = .int n ∧ q = n) ∧ Binary64.InRange q

/-- An array of values. -/
def list (s : Schema) : Schema where
  Fits v := v = .null ∨ ∃ vs, v = .arr vs ∧ ∀ w ∈ vs, s.Fits w
  place := .whole
  required := s.required.map .elem

/-- An object whose names are free. -/
def dict (s : Schema) : Schema where
  Fits v := v = .null ∨ ∃ members, v = .obj members ∧ ∀ m ∈ members, s.Fits m.2
  place := .whole
  required := s.required.map .entry

/-- An object with given fields: it fits when every member is one of them, up to the case of its
name. -/
def record (fields : List SchemaField) : Schema where
  Fits v := v = .null ∨ ∃ members, v = .obj members ∧
    ∀ m ∈ members, ∃ f ∈ fields, foldName m.1 = foldName f.name ∧ f.schema.Fits m.2
  place := .itself
  required := fields.flatMap SchemaField.places

/-- An object that may have other members beside given fields. -/
def openRecord (fields : List SchemaField) : Schema where
  Fits v := v = .null ∨ ∃ members, v = .obj members ∧
    ∀ m ∈ members, ∀ f ∈ fields, foldName m.1 = foldName f.name → f.schema.Fits m.2
  place := .itself
  required := fields.flatMap SchemaField.places

end Schema

/-! ### Decoders -/

/-- The decoder accepts the values that fit. -/
def Judges {α : Type} (d : Decoder α) (s : Schema) : Prop :=
  ∀ v a, (∃ b, d v a = some b) ↔ s.Fits v

theorem judges_bool : Judges decodeBool .boolean := by
  intro v a
  cases v <;> simp [decodeBool, Schema.boolean, Schema.leaf]

theorem judges_string : Judges decodeString .string := by
  intro v a
  cases v <;> simp [decodeString, Schema.string, Schema.leaf]

theorem judges_int64 : Judges decodeInt64 .integer := by
  intro v a
  cases v with
  | int n =>
    by_cases h : InInt64 n
    · simp [decodeInt64, Schema.integer, Schema.leaf, h]
    · simp [decodeInt64, Schema.integer, Schema.leaf, h]
  | _ => simp [decodeInt64, Schema.integer, Schema.leaf]

theorem toFloat64_isSome_iff (q : ℚ) : (∃ r, toFloat64 q = some r) ↔ Binary64.InRange q := by
  rw [toFloat64]
  split <;> rename_i h <;> simp [h]

theorem judges_float64 : Judges decodeFloat64 .number := by
  intro v a
  cases v with
  | int n =>
    refine (toFloat64_isSome_iff n).trans ?_
    simp [Schema.number, Schema.leaf]
  | dec q =>
    refine (toFloat64_isSome_iff q).trans ?_
    simp [Schema.number, Schema.leaf]
  | _ => simp [decodeFloat64, Schema.number, Schema.leaf]

/-- A mapped result is there when the result is. -/
theorem exists_map_eq_some {α β : Type} {o : Option α} {f : α → β} :
    (∃ b, o.map f = some b) ↔ ∃ a, o = some a := by
  cases o <;> simp

section Composite

variable {α : Type} {zero : α} {d : Decoder α} {s : Schema}

/-- A pointer is `nil` for `null`, which fits every schema of a value without parts. -/
theorem judges_pointer (hnull : s.Fits .null) (h : Judges d s) :
    Judges (decodePointer zero d) s := by
  intro v p
  cases v with
  | null => exact ⟨fun _ => hnull, fun _ => ⟨none, rfl⟩⟩
  | _ =>
    refine Iff.trans ?_ (h _ (p.getD zero))
    simp only [decodePointer, exists_map_eq_some]

theorem decodeElems_isSome_iff (zero : α) (h : Judges d s) (vs : List Json) (held : List α) :
    (∃ as, decodeElems zero d vs held = some as) ↔ ∀ v ∈ vs, s.Fits v := by
  induction vs generalizing held with
  | nil => exact ⟨fun _ => nofun, fun _ => ⟨[], rfl⟩⟩
  | cons v vs ih =>
    rw [List.forall_mem_cons, ← h v (held.headD zero), ← ih held.tail]
    simp only [decodeElems, Option.bind_eq_bind, Option.bind_eq_some_iff, Option.pure_def]
    constructor
    · rintro ⟨_, a, ha, as, has, _⟩
      exact ⟨⟨a, ha⟩, ⟨as, has⟩⟩
    · rintro ⟨⟨a, ha⟩, ⟨as, has⟩⟩
      exact ⟨_, a, ha, as, has, rfl⟩

theorem judges_slice (h : Judges d s) : Judges (decodeSlice zero d) (.list s) := by
  intro v held
  cases v with
  | null => exact ⟨fun _ => .inl rfl, fun _ => ⟨.nil, rfl⟩⟩
  | arr vs =>
    refine Iff.trans ?_ ((decodeElems_isSome_iff zero h vs held.elems).trans ?_)
    · simp only [decodeSlice, exists_map_eq_some]
    · simp [Schema.list]
  | _ => simp [decodeSlice, Schema.list]

theorem decodeEntries_isSome_iff (h : Judges d s) (members : List (String × Json)) (m : GoMap α) :
    (∃ m', decodeEntries zero d members m = some m') ↔ ∀ p ∈ members, s.Fits p.2 := by
  induction members generalizing m with
  | nil => exact ⟨fun _ => nofun, fun _ => ⟨m, rfl⟩⟩
  | cons p members ih =>
    obtain ⟨k, v⟩ := p
    rw [List.forall_mem_cons, ← h v zero]
    simp only [decodeEntries, Option.bind_eq_bind, Option.bind_eq_some_iff]
    constructor
    · rintro ⟨m', a, ha, hrest⟩
      exact ⟨⟨a, ha⟩, (ih _).mp ⟨m', hrest⟩⟩
    · rintro ⟨⟨a, ha⟩, hrest⟩
      obtain ⟨m', hm'⟩ := (ih (m.set k a)).mpr hrest
      exact ⟨m', a, ha, hm'⟩

theorem judges_map (h : Judges d s) : Judges (decodeMap zero d) (.dict s) := by
  intro v m
  cases v with
  | null => exact ⟨fun _ => .inl rfl, fun _ => ⟨.nil, rfl⟩⟩
  | obj members =>
    refine (decodeEntries_isSome_iff h members m.copy).trans ?_
    simp [Schema.dict]
  | _ => simp [decodeMap, Schema.dict]

end Composite

/-- A field of a struct and the field of the schema that it stands for. -/
def FieldJudges {S : Type} (f : StructField S) (g : SchemaField) : Prop :=
  f.name = g.name ∧ Judges f.decode g.schema

theorem fieldJudges_of {S α : Type} {name : String} {d : Decoder α} {get : S → α}
    {set : S → α → S} {s : Schema} (h : Judges d s) (required : Bool) :
    FieldJudges (.of name d get set) ⟨name, s, required⟩ := by
  refine ⟨rfl, fun v t => Iff.trans ?_ (h v (get t))⟩
  simp only [StructField.of, exists_map_eq_some]

theorem exists_of_forall₂ {α β : Type} {R : α → β → Prop} {as : List α} {bs : List β}
    (h : List.Forall₂ R as bs) {a : α} (ha : a ∈ as) : ∃ b ∈ bs, R a b := by
  induction h with
  | nil => cases ha
  | cons hab _ ih =>
    rcases List.mem_cons.mp ha with rfl | ha
    · exact ⟨_, List.mem_cons_self, hab⟩
    · obtain ⟨b, hb, hR⟩ := ih ha
      exact ⟨b, List.mem_cons_of_mem _ hb, hR⟩

section Struct

variable {S : Type} {fields : List (StructField S)} {schema : List SchemaField}

theorem decodeFields_isSome_iff (hu : Unambiguous fields)
    (h : List.Forall₂ FieldJudges fields schema) (members : List (String × Json)) (s : S) :
    (∃ t, decodeFields true fields members s = some t) ↔
      ∀ m ∈ members, ∃ g ∈ schema, foldName m.1 = foldName g.name ∧ g.schema.Fits m.2 := by
  induction members generalizing s with
  | nil => exact ⟨fun _ => nofun, fun _ => ⟨s, rfl⟩⟩
  | cons m members ih =>
    obtain ⟨k, v⟩ := m
    rw [List.forall_mem_cons]
    constructor
    · rintro ⟨t, ht⟩
      rcases decodeFields_cons_some ht with ⟨hnone, _⟩ | ⟨f, s', hf, hd, hrest⟩
      · simp only [decodeFields, hnone] at ht
        cases ht
      · obtain ⟨hmem, hname⟩ := fieldNamed_some hf
        obtain ⟨g, hg, hsame, hjudges⟩ := exists_of_forall₂ h hmem
        exact ⟨⟨g, hg, hsame ▸ hname, (hjudges v s).mp ⟨s', hd⟩⟩, (ih s').mp ⟨t, hrest⟩⟩
    · rintro ⟨⟨g, hg, hname, hfits⟩, hrest⟩
      obtain ⟨f, hf, hsame, hjudges⟩ := exists_of_forall₂ h.flip hg
      obtain ⟨s', hd⟩ := (hjudges v s).mpr hfits
      obtain ⟨t, ht⟩ := (ih s').mpr hrest
      refine ⟨t, ?_⟩
      simp only [decodeFields, fieldNamed_of_mem hu hf (hsame ▸ hname), hd, Option.bind_some, ht]

/-- **A struct with unknown fields disallowed** accepts the objects that fit its schema. -/
theorem judges_struct (hu : Unambiguous fields) (h : List.Forall₂ FieldJudges fields schema) :
    Judges (decodeStruct true fields) (.record schema) := by
  intro v s
  cases v with
  | null => exact ⟨fun _ => .inl rfl, fun _ => ⟨s, rfl⟩⟩
  | obj members =>
    refine (decodeFields_isSome_iff hu h members s).trans ?_
    simp [Schema.record]
  | _ => simp [decodeStruct, Schema.record]

theorem decodeFields_open_isSome_iff (hu : Unambiguous fields)
    (h : List.Forall₂ FieldJudges fields schema) (members : List (String × Json)) (s : S) :
    (∃ t, decodeFields false fields members s = some t) ↔
      ∀ m ∈ members, ∀ g ∈ schema, foldName m.1 = foldName g.name → g.schema.Fits m.2 := by
  induction members generalizing s with
  | nil => exact ⟨fun _ m hm => absurd hm List.not_mem_nil, fun _ => ⟨s, rfl⟩⟩
  | cons m members ih =>
    obtain ⟨k, v⟩ := m
    rw [List.forall_mem_cons]
    constructor
    · rintro ⟨t, ht⟩
      rcases decodeFields_cons_some ht with ⟨hnone, hrest⟩ | ⟨f, s', hf, hd, hrest⟩
      · refine ⟨fun g hg hname => ?_, (ih s).mp ⟨t, hrest⟩⟩
        obtain ⟨f, hf, hsame, -⟩ := exists_of_forall₂ h.flip hg
        rw [fieldNamed_of_mem hu hf (hsame ▸ hname)] at hnone
        cases hnone
      · refine ⟨fun g hg hname => ?_, (ih s').mp ⟨t, hrest⟩⟩
        obtain ⟨f', hf', hsame, hjudges⟩ := exists_of_forall₂ h.flip hg
        rw [fieldNamed_of_mem hu hf' (hsame ▸ hname)] at hf
        cases hf
        exact (hjudges v s).mp ⟨s', hd⟩
    · rintro ⟨hfits, hrest⟩
      cases hf : fieldNamed fields k with
      | none =>
        obtain ⟨t, ht⟩ := (ih s).mpr hrest
        exact ⟨t, by simp only [decodeFields, hf, Bool.false_eq_true, if_false, ht]⟩
      | some f =>
        obtain ⟨hmem, hname⟩ := fieldNamed_some hf
        obtain ⟨g, hg, hsame, hjudges⟩ := exists_of_forall₂ h hmem
        obtain ⟨s', hd⟩ := (hjudges v s).mpr (hfits g hg (hsame ▸ hname))
        obtain ⟨t, ht⟩ := (ih s').mpr hrest
        exact ⟨t, by simp only [decodeFields, hf, hd, Option.bind_some, ht]⟩

/-- **A struct** accepts the objects whose members fit the fields that they are taken for. -/
theorem judges_openStruct (hu : Unambiguous fields) (h : List.Forall₂ FieldJudges fields schema) :
    Judges (decodeStruct false fields) (.openRecord schema) := by
  intro v s
  cases v with
  | null => exact ⟨fun _ => .inl rfl, fun _ => ⟨s, rfl⟩⟩
  | obj members =>
    refine (decodeFields_open_isSome_iff hu h members s).trans ?_
    simp [Schema.openRecord]
  | _ => simp [decodeStruct, Schema.openRecord]

end Struct

end GoJson
