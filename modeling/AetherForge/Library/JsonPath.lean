import AetherForge.Library.StructJson

/-!
# Paths into JSON values

A path goes from a value into its members and elements.  In an object as it was received every
member counts; in one that is looked things up in, the first of each name does.

* `Reaches` — what stands at a path of a value;
* `resolve` — what a path is looked up as;
* `Uncovered` — some key of a value has no counterpart in another.
-/

namespace StructJson

/-- A step into an object or an array. -/
inductive Segment
  | key (k : String)
  | index (n : ℕ)

abbrev Path := List Segment

/-- What stands at a path of a value. -/
inductive Reaches : JsonValue → Path → JsonValue → Prop
  | here (v : JsonValue) : Reaches v [] v
  | key {members : JsonObject} {k : String} {v w : JsonValue} {p : Path} :
      (k, v) ∈ members → Reaches v p w → Reaches (.object members) (.key k :: p) w
  | index {elems : List JsonValue} {n : ℕ} {v w : JsonValue} {p : Path} :
      elems[n]? = some v → Reaches v p w → Reaches (.array elems) (.index n :: p) w

/-- A key stands in the object at a path of a value. -/
def KeyAt (v : JsonValue) (p : Path) (k : String) : Prop := ∃ w, Reaches v (p ++ [.key k]) w

/-- A key stands somewhere in a value. -/
def HasKey (v : JsonValue) : Prop := ∃ p k, KeyAt v p k

theorem keyAt_root {members : JsonObject} {k : String} {v : JsonValue} (h : (k, v) ∈ members) :
    KeyAt (.object members) [] k := ⟨v, .key h (.here v)⟩

theorem KeyAt.key {members : JsonObject} {k₀ k : String} {v : JsonValue} {p : Path}
    (hmem : (k₀, v) ∈ members) (h : KeyAt v p k) :
    KeyAt (.object members) (.key k₀ :: p) k := h.imp fun _ => .key hmem

theorem KeyAt.index {elems : List JsonValue} {n : ℕ} {k : String} {v : JsonValue} {p : Path}
    (helem : elems[n]? = some v) (h : KeyAt v p k) :
    KeyAt (.array elems) (.index n :: p) k := h.imp fun _ => .index helem

section Resolve

variable {F : Type} [DecidableEq F] (fold : String → F)

/-- What a path is looked up as. -/
def resolve : JsonValue → Path → Option JsonValue
  | v, [] => some v
  | .object members, .key k :: p => (tryGetField fold members k).bind fun v => resolve v p
  | .array elems, .index n :: p => elems[n]?.bind fun v => resolve v p
  | _, _ :: _ => none
termination_by structural _ p => p

/-- Every key of a value has a counterpart at its path. -/
def Covered (known v : JsonValue) : Prop :=
  ∀ p k, KeyAt v p k → (resolve fold known (p ++ [.key k])).isSome

/-- Some key of a value has no counterpart in what is known, which may be nothing at all. -/
def Uncovered (known : Option JsonValue) (v : JsonValue) : Prop :=
  ∃ p k, KeyAt v p k ∧ (known.bind fun w => resolve fold w (p ++ [.key k])) = none

variable {fold}

theorem covered_iff {known v : JsonValue} :
    Covered fold known v ↔ ¬Uncovered fold (some known) v := by
  constructor
  · rintro h ⟨p, k, hkey, hnone⟩
    exact absurd hnone (Option.isSome_iff_ne_none.mp (h p k hkey))
  · intro h p k hkey
    rw [Option.isSome_iff_ne_none]
    exact fun hnone => h ⟨p, k, hkey, hnone⟩

/-- Two objects, or two arrays. -/
inductive SameKind : JsonValue → JsonValue → Prop
  | object (known members : JsonObject) : SameKind (.object known) (.object members)
  | array (knownElems elems : List JsonValue) : SameKind (.array knownElems) (.array elems)

/-- Below a value of another kind nothing is found. -/
theorem resolve_eq_none {known v w : JsonValue} {s : Segment} {p : Path}
    (h : Reaches v (s :: p) w) (hkind : ¬SameKind known v) :
    resolve fold known (s :: p) = none := by
  cases h with
  | key =>
    cases known with
    | object known => exact absurd (.object known _) hkind
    | _ => rfl
  | index =>
    cases known with
    | array knownElems => exact absurd (.array knownElems _) hkind
    | _ => rfl

/-- A value of another kind covers no key. -/
theorem uncovered_of_kind {known v : JsonValue} (hkind : ¬SameKind known v) (h : HasKey v) :
    Uncovered fold (some known) v := by
  obtain ⟨p, k, w, hreaches⟩ := h
  refine ⟨p, k, ⟨w, hreaches⟩, ?_⟩
  cases p with
  | nil => exact resolve_eq_none hreaches hkind
  | cons s p => exact resolve_eq_none hreaches hkind

theorem Uncovered.key {known members : JsonObject} {k : String} {knownValue v : JsonValue}
    (hmem : (k, v) ∈ members) (hknown : tryGetField fold known k = some knownValue)
    (h : Uncovered fold (some knownValue) v) :
    Uncovered fold (some (.object known)) (.object members) := by
  obtain ⟨p, k', hkey, hnone⟩ := h
  refine ⟨.key k :: p, k', hkey.key hmem, ?_⟩
  show (tryGetField fold known k).bind _ = none
  rw [hknown]
  exact hnone

theorem Uncovered.index {knownElems elems : List JsonValue} {n : ℕ} {v : JsonValue}
    (helem : elems[n]? = some v) (h : Uncovered fold knownElems[n]? v) :
    Uncovered fold (some (.array knownElems)) (.array elems) := by
  obtain ⟨p, k, hkey, hnone⟩ := h
  exact ⟨.index n :: p, k, hkey.index helem, hnone⟩

end Resolve

end StructJson
