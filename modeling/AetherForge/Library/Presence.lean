import AetherForge.Library.StructJson

/-!
# Fields that are there

What has to be in a value, as a requirement on its members and elements, and what the import into a
struct tells of a single field: the property holds what the field is imported as, and keeps what it
held when the field is missing or `null`.

* `Requirement` — a value, or a record of required fields, or a list;
* `importProperties_field` — the value of one property after an import.
-/

namespace StructJson

/-! ### Requirements -/

/-- What has to be there in a value. -/
abbrev Requirement := JsonValue → Prop

namespace Requirement

/-- Anything but `null`. -/
def value : Requirement := fun v => v ≠ .null

/-- An array of values of the same kind. -/
def list (r : Requirement) : Requirement := fun v => ∃ vs, v = .array vs ∧ ∀ w ∈ vs, r w

section Record

variable {F : Type} [DecidableEq F] (fold : String → F)

/-- An object with the given fields, up to the case of their names. -/
def record (fields : List (String × Requirement)) : Requirement := fun v =>
  ∃ members, v = .object members ∧
    ∀ f ∈ fields, ∃ w, tryGetField fold members f.1 = some w ∧ f.2 w

variable {fold} {fields : List (String × Requirement)} {members : JsonObject}

theorem record_object : record fold fields (.object members) ↔
    ∀ f ∈ fields, ∃ w, tryGetField fold members f.1 = some w ∧ f.2 w := by
  constructor
  · rintro ⟨_, heq, h⟩
    cases heq
    exact h
  · exact fun h => ⟨members, rfl, h⟩

theorem record_cons {name : String} {r : Requirement} :
    record fold ((name, r) :: fields) (.object members) ↔
      (∃ w, tryGetField fold members name = some w ∧ r w) ∧
        record fold fields (.object members) := by
  rw [record_object, record_object, List.forall_mem_cons]

theorem record_append {fields' : List (String × Requirement)} :
    record fold (fields ++ fields') (.object members) ↔
      record fold fields (.object members) ∧ record fold fields' (.object members) := by
  rw [record_object, record_object, record_object, List.forall_mem_append]

end Record

end Requirement

/-! ### The value of one property -/

section Import

variable {F : Type} [DecidableEq F] {fold : String → F} {S : Type} {members : JsonObject}

/-- What a field of an object, if it is there, is loaded as over a value. -/
def Kind.loadField {α : Type} (κ : Kind α) : Option JsonValue → α → Option α
  | none, a => some a
  | some v, a => κ.load v a

/-- A property that leaves a part of the struct as it is. -/
def Keeps {α : Type} (get : S → α) (p : Property S) : Prop :=
  ∀ v s s', p.load v s = some s' → get s' = get s

theorem keeps_of {α β : Type} {get : S → α} {name : String} {κ : Kind β} {get' : S → β}
    {set : S → β → S} (h : ∀ s b, get (set s b) = get s) :
    Keeps get (.of name κ get' set) := by
  intro v s s' hload
  obtain ⟨b, _, rfl⟩ := Option.map_eq_some_iff.mp hload
  exact h s b

theorem importProperties_append (ps qs : List (Property S)) (s : S) :
    importProperties fold members (ps ++ qs) s =
      (importProperties fold members ps s).bind (importProperties fold members qs) := by
  induction ps generalizing s with
  | nil => rfl
  | cons p ps ih =>
    simp only [List.cons_append, importProperties]
    cases tryGetField fold members p.name with
    | none => exact ih s
    | some v =>
      cases hload : p.load v s with
      | none => simp only [hload, Option.bind_none]
      | some s' =>
        simp only [hload, Option.bind_some]
        exact ih s'

theorem importProperties_keeps {α : Type} {get : S → α} {ps : List (Property S)}
    (hkeeps : ∀ p ∈ ps, Keeps get p) {s s' : S}
    (h : importProperties fold members ps s = some s') : get s' = get s := by
  induction ps generalizing s with
  | nil =>
    cases h
    rfl
  | cons p ps ih =>
    obtain ⟨hp, hps⟩ := List.forall_mem_cons.mp hkeeps
    rw [importProperties] at h
    cases hfield : tryGetField fold members p.name with
    | none =>
      rw [hfield] at h
      exact ih hps h
    | some v =>
      rw [hfield] at h
      obtain ⟨t, hload, hrest⟩ := Option.bind_eq_some_iff.mp h
      rw [ih hps hrest, hp v s t hload]

/-- **The value of one property** among others that keep it is what its field is loaded as. -/
theorem importProperties_field {α : Type} {name : String} {κ : Kind α} {get : S → α}
    {set : S → α → S} (hget : ∀ s a, get (set s a) = a) (before after : List (Property S))
    (hbefore : ∀ p ∈ before, Keeps get p) (hafter : ∀ p ∈ after, Keeps get p) {s s' : S}
    (h : importProperties fold members (before ++ .of name κ get set :: after) s = some s') :
    κ.loadField (tryGetField fold members name) (get s) = some (get s') := by
  rw [importProperties_append] at h
  obtain ⟨t, ht, hrest⟩ := Option.bind_eq_some_iff.mp h
  rw [← importProperties_keeps hbefore ht]
  rw [importProperties] at hrest
  cases hfield : tryGetField fold members name with
  | none =>
    rw [show (Property.of name κ get set).name = name from rfl, hfield] at hrest
    rw [importProperties_keeps hafter hrest]
    rfl
  | some v =>
    rw [show (Property.of name κ get set).name = name from rfl, hfield] at hrest
    obtain ⟨u, hload, hrest⟩ := Option.bind_eq_some_iff.mp hrest
    obtain ⟨a, ha, rfl⟩ := Option.map_eq_some_iff.mp hload
    rw [importProperties_keeps hafter hrest, hget]
    exact ha

end Import

/-! ### Texts and numbers -/

section Conversions

variable (c : Conversions)

/-- The text of a field. -/
def Conversions.text : Option JsonValue → String
  | none => ""
  | some .null => ""
  | some v => c.asString v

/-- The number of a field of 32 bits. -/
def Conversions.whole : Option JsonValue → ℤ
  | none => 0
  | some .null => 0
  | some v => wrap32 (c.toInt64 (c.asNumber v))

variable {c}

theorem loadField_string (o : Option JsonValue) :
    (Kind.string c).loadField o "" = some (c.text o) := by
  rcases o with _ | v
  · rfl
  · cases v <;> rfl

theorem loadField_int32 (o : Option JsonValue) :
    (Kind.int32 c).loadField o 0 = some (c.whole o) := by
  rcases o with _ | v
  · rfl
  · cases v <;> rfl

/-- A text is that of a value. -/
theorem exists_of_text_ne {o : Option JsonValue} (h : c.text o ≠ "") :
    ∃ v, o = some v ∧ Requirement.value v := by
  rcases o with _ | v
  · exact absurd rfl h
  · refine ⟨v, rfl, fun hnull => ?_⟩
    rw [hnull] at h
    exact h rfl

end Conversions

/-! ### Elements -/

/-- The elements of a field. -/
def elemsOf : Option JsonValue → List JsonValue
  | some (.array vs) => vs
  | _ => []

variable {α : Type} {κ : Kind α} {initial : α}

theorem forall₂_of_importElems {vs : List JsonValue} {as : List α}
    (h : importElems κ initial vs [] = some as) :
    List.Forall₂ (fun v a => κ.load v initial = some a) vs as := by
  induction vs generalizing as with
  | nil =>
    cases h
    exact .nil
  | cons v vs ih =>
    obtain ⟨a, ha, hrest⟩ := Option.bind_eq_some_iff.mp h
    obtain ⟨rest, hvs, heq⟩ := Option.bind_eq_some_iff.mp hrest
    cases heq
    exact .cons ha (ih hvs)

/-- **The elements of an array** over an empty one are each loaded over the initial value. -/
theorem forall₂_of_loadField_array {o : Option JsonValue} {as : List α}
    (h : (Kind.array κ initial).loadField o [] = some as) :
    List.Forall₂ (fun v a => κ.load v initial = some a) (elemsOf o) as := by
  rcases o with _ | v
  · cases h
    exact .nil
  · cases v with
    | null =>
      cases h
      exact .nil
    | array vs => exact forall₂_of_importElems h
    | _ => cases h

end StructJson
