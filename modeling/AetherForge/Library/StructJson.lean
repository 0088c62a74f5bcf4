import AetherForge.Library.FoldedMap
import AetherForge.Library.GoJson

/-!
# JSON values and reflected structs

JSON as an engine holds it, with numbers as doubles and objects as maps whose keys are compared
up to a folding, and the conversion between objects and structs that have a table of named
properties.  A property whose name is missing from the object, or is `null` there, keeps the value
it has; names that no property has are passed over.

How values of the wrong kind are converted is left to the engine: `Conversions` are its functions,
and `Conversions.Lawful` is what they do with values of the right kind.

* `ofJson`, `toJson` — the value of a text, and the text of a value;
* `Kind` — a type of properties, with its import and export;
* `importProperties_named` — an object with exactly the properties of a table is imported in order.
-/

namespace StructJson

open GoJson

/-- A JSON value in memory. -/
inductive JsonValue
  | null
  | boolean (b : Bool)
  | number (q : ℚ)
  /-- A number that keeps its digits. -/
  | numberString (n : ℤ)
  | string (s : String)
  | array (elems : List JsonValue)
  | object (members : List (String × JsonValue))

abbrev JsonObject := List (String × JsonValue)

/-! ### Texts -/

section Texts

variable {F : Type} [DecidableEq F] (fold : String → F)

mutual

/-- The value that a text is read as. -/
def ofJson : Json → JsonValue
  | .null => .null
  | .bool b => .boolean b
  | .int n => .number (Binary64.round n)
  | .dec q => .number (Binary64.round q)
  | .str s => .string s
  | .arr vs => .array (ofElems vs)
  | .obj members => .object (FoldedMap.ofEntries (ofMembers members) : FoldedMap fold _).entries

def ofElems : List Json → List JsonValue
  | [] => []
  | v :: vs => ofJson v :: ofElems vs

def ofMembers : List (String × Json) → JsonObject
  | [] => []
  | (k, v) :: rest => (k, ofJson v) :: ofMembers rest

end

theorem ofElems_eq (vs : List Json) : ofElems fold vs = vs.map (ofJson fold) := by
  induction vs with
  | nil => rfl
  | cons v vs ih => rw [ofElems, ih, List.map_cons]

theorem ofMembers_eq (members : List (String × Json)) :
    ofMembers fold members = members.map fun m => (m.1, ofJson fold m.2) := by
  induction members with
  | nil => rfl
  | cons m rest ih => rw [ofMembers, ih, List.map_cons]

/-- An object with distinct keys is read member by member. -/
theorem ofJson_obj {members : List (String × Json)}
    (h : (members.map fun m => fold m.1).Nodup) :
    ofJson fold (.obj members) = .object (members.map fun m => (m.1, ofJson fold m.2)) := by
  rw [ofJson, ofMembers_eq, FoldedMap.entries_ofEntries]
  rw [List.map_map]
  exact h

variable (print : ℚ → Json)

mutual

/-- The text that a value is written as; `print` is the text of a double. -/
def toJson : JsonValue → Json
  | .null => .null
  | .boolean b => .bool b
  | .number q => print q
  | .numberString n => .int n
  | .string s => .str s
  | .array vs => .arr (toElems vs)
  | .object members => .obj (toMembers members)

def toElems : List JsonValue → List Json
  | [] => []
  | v :: vs => toJson v :: toElems vs

def toMembers : JsonObject → List (String × Json)
  | [] => []
  | (k, v) :: rest => (k, toJson v) :: toMembers rest

end

theorem toMembers_eq (members : JsonObject) :
    toMembers print members = members.map fun m => (m.1, toJson print m.2) := by
  induction members with
  | nil => rfl
  | cons m rest ih => rw [toMembers, ih, List.map_cons]

end Texts

/-! ### Conversions -/

/-- What the engine makes of values, whatever their kind. -/
structure Conversions where
  asNumber : JsonValue → ℚ
  asString : JsonValue → String
  asBool : JsonValue → Bool
  /-- The cast of a double to a signed integer of 64 bits. -/
  toInt64 : ℚ → ℤ
  /-- A struct from a value that is no object. -/
  importText : (S : Type) → JsonValue → S → Option S
  /-- The key that stands for a key of a map. -/
  exportKey : String → String

/-- Values of the right kind are converted to what they hold. -/
structure Conversions.Lawful (c : Conversions) : Prop where
  number : ∀ q, c.asNumber (.number q) = q
  string : ∀ s, c.asString (.string s) = s
  boolean : ∀ b, c.asBool (.boolean b) = b
  int64 : ∀ n : ℤ, InInt64 n → c.toInt64 n = n
  key : ∀ k, k ≠ "" → c.exportKey k = k

/-- The range of a signed integer of 32 bits. -/
def InInt32 (n : ℤ) : Prop := -2 ^ 31 ≤ n ∧ n < 2 ^ 31

instance (n : ℤ) : Decidable (InInt32 n) := inferInstanceAs (Decidable (_ ∧ _))

/-- Storing into a signed integer of 32 bits. -/
def wrap32 (n : ℤ) : ℤ := Int.bmod n (2 ^ 32)

theorem wrap32_of_inInt32 {n : ℤ} (h : InInt32 n) : wrap32 n = n := by
  obtain ⟨hlo, hhi⟩ := h
  simp only [wrap32, Int.bmod]
  omega

theorem inInt32_wrap32 (n : ℤ) : InInt32 (wrap32 n) := by
  constructor
  · exact Int.le_bmod (by decide)
  · exact Int.bmod_lt (by decide)

theorem InInt32.inInt64 {n : ℤ} (h : InInt32 n) : InInt64 n := by
  obtain ⟨hlo, hhi⟩ := h
  constructor <;> omega

/-! ### Kinds of properties -/

/-- How a type of properties is imported over a value that is there, and exported. -/
structure Kind (α : Type) where
  importValue : JsonValue → α → Option α
  exportValue : α → JsonValue

/-- Import a value unless it is `null`. -/
def Kind.load {α : Type} (κ : Kind α) : JsonValue → α → Option α
  | .null, a => some a
  | v, a => κ.importValue v a

/-- A property of a struct. -/
structure Property (S : Type) where
  name : String
  load : JsonValue → S → Option S
  exportValue : S → JsonValue

/-- A property given by its kind and its accessors. -/
def Property.of {S α : Type} (name : String) (κ : Kind α) (get : S → α) (set : S → α → S) :
    Property S :=
  ⟨name, fun v s => (κ.load v (get s)).map (set s), fun s => κ.exportValue (get s)⟩

section Kinds

variable (c : Conversions)

def Kind.double : Kind ℚ := ⟨fun v _ => some (c.asNumber v), .number⟩

def Kind.int64 : Kind ℤ :=
  ⟨fun v _ => some (c.toInt64 (c.asNumber v)), fun n => .number (Binary64.round n)⟩

def Kind.int32 : Kind ℤ :=
  ⟨fun v _ => some (wrap32 (c.toInt64 (c.asNumber v))), fun n => .number n⟩

def Kind.bool : Kind Bool := ⟨fun v _ => some (c.asBool v), .boolean⟩

def Kind.string : Kind String := ⟨fun v _ => some (c.asString v), .string⟩

section Containers

variable {α : Type} (κ : Kind α) (initial : α)

/-- The elements of an array, over those that are there. -/
def importElems : List JsonValue → List α → Option (List α)
  | [], _ => some []
  | v :: vs, held => do
    let a ← κ.load v (held.headD initial)
    let rest ← importElems vs held.tail
    return a :: rest

def Kind.array : Kind (List α) where
  importValue v held :=
    match v with
    | .array vs => importElems κ initial vs held
    | _ => none
  exportValue l := .array (l.map κ.exportValue)

/-- The entries of an object; those that are `null` are left out. -/
def importEntries : JsonObject → Option (List (String × α))
  | [] => some []
  | (_, .null) :: rest => importEntries rest
  | (k, v) :: rest => do
    let a ← κ.importValue v initial
    let entries ← importEntries rest
    return (k, a) :: entries

variable {F : Type} [DecidableEq F] (fold : String → F)

def Kind.map : Kind (FoldedMap fold α) where
  importValue v _ :=
    match v with
    | .object members => (importEntries κ initial members).map FoldedMap.ofEntries
    | _ => none
  exportValue m := .object (FoldedMap.ofEntries (m.entries.map fun p =>
    (c.exportKey p.1, κ.exportValue p.2)) : FoldedMap fold JsonValue).entries

end Containers

section Structs

variable {F : Type} [DecidableEq F] (fold : String → F)

/-- The value of a key. -/
def tryGetField (members : JsonObject) (k : String) : Option JsonValue :=
  (members.find? fun m => fold m.1 = fold k).map Prod.snd

variable {S : Type}

/-- Import the properties of a table, one after the other. -/
def importProperties (members : JsonObject) : List (Property S) → S → Option S
  | [], s => some s
  | p :: ps, s =>
    match tryGetField fold members p.name with
    | none => importProperties members ps s
    | some v => (p.load v s).bind (importProperties members ps)

/-- The object that a struct is exported as. -/
def exportProperties (ps : List (Property S)) (s : S) : JsonObject :=
  ps.map fun p => (p.name, p.exportValue s)

def Kind.struct (ps : List (Property S)) : Kind S where
  importValue v s :=
    match v with
    | .object members => importProperties fold members ps s
    | v => c.importText S v s
  exportValue s := .object (exportProperties ps s)

end Structs

end Kinds

/-! ### Rules -/

section Rules

variable {F : Type} [DecidableEq F] {fold : String → F}

/-- With distinct keys, each member is found. -/
theorem tryGetField_of_mem {members : JsonObject} {k : String} {v : JsonValue}
    (hnd : (members.map fun m => fold m.1).Nodup) (h : (k, v) ∈ members) :
    tryGetField fold members k = some v :=
  (⟨members, hnd⟩ : FoldedMap fold JsonValue).find_of_mem h

variable {S : Type}

/-- Import values into the properties of a table, each into its own. -/
def loadAll : List (Property S) → List JsonValue → S → Option S
  | p :: ps, v :: vs, s => (p.load v s).bind (loadAll ps vs)
  | _, _, s => some s

/-- The names of a table differ by more than the folding. -/
def Unambiguous (fold : String → F) (ps : List (Property S)) : Prop :=
  (ps.map fun p => fold p.name).Nodup

/-- The members of an object with the names of a table, in its order. -/
def named (ps : List (Property S)) (vs : List JsonValue) : JsonObject :=
  List.zipWith (fun p v => (p.name, v)) ps vs

omit [DecidableEq F] in
theorem fold_named {ps : List (Property S)} {vs : List JsonValue} (hlen : ps.length = vs.length) :
    (named ps vs).map (fun m => fold m.1) = ps.map fun p => fold p.name := by
  induction ps generalizing vs with
  | nil => rfl
  | cons p ps ih =>
    cases vs with
    | nil => cases hlen
    | cons v vs => exact congrArg (fold p.name :: ·) (ih (Nat.succ.inj hlen))

/-- Properties whose values are found are imported from them. -/
theorem importProperties_eq {members : JsonObject} {ps : List (Property S)} {vs : List JsonValue}
    (h : List.Forall₂ (fun p v => tryGetField fold members p.name = some v) ps vs) (s : S) :
    importProperties fold members ps s = loadAll ps vs s := by
  induction h generalizing s with
  | nil => rfl
  | cons hp _ ih =>
    simp only [importProperties, hp, loadAll]
    exact congrArg _ (funext ih)

theorem mem_named_of_forall₂ {ps : List (Property S)} {vs : List JsonValue}
    (hlen : ps.length = vs.length) :
    List.Forall₂ (fun p v => (p.name, v) ∈ named ps vs) ps vs := by
  induction ps generalizing vs with
  | nil =>
    cases vs with
    | nil => exact .nil
    | cons v vs => cases hlen
  | cons p ps ih =>
    cases vs with
    | nil => cases hlen
    | cons v vs =>
      refine .cons List.mem_cons_self ((ih (Nat.succ.inj hlen)).imp ?_)
      intro p' v' hmem
      exact List.mem_cons_of_mem _ hmem

/-- A member of an object with the names of a table belongs to a property. -/
theorem exists_of_mem_named {R : Property S → JsonValue → Prop} {ps : List (Property S)}
    {vs : List JsonValue} (h : List.Forall₂ R ps vs) {m : String × JsonValue}
    (hm : m ∈ named ps vs) : ∃ p ∈ ps, m.1 = p.name ∧ R p m.2 := by
  induction h with
  | nil => cases hm
  | cons hp _ ih =>
    rcases List.mem_cons.mp hm with rfl | hm
    · exact ⟨_, List.mem_cons_self, rfl, hp⟩
    · obtain ⟨p, hmem, hname, hR⟩ := ih hm
      exact ⟨p, List.mem_cons_of_mem _ hmem, hname, hR⟩

theorem tryGetField_exportProperties {ps : List (Property S)} (hps : Unambiguous fold ps)
    {p : Property S} (hp : p ∈ ps) (s : S) :
    tryGetField fold (exportProperties ps s) p.name = some (p.exportValue s) := by
  refine tryGetField_of_mem ?_ (List.mem_map.mpr ⟨p, hp, rfl⟩)
  rw [exportProperties, List.map_map]
  exact hps

/-- Members with the names of a table, their values changed. -/
theorem map_members_eq_named {V : Type} {ps : List (Property S)} {members : List (String × V)}
    (hnames : members.map Prod.fst = ps.map (·.name)) (f : V → JsonValue) :
    (members.map fun m => (m.1, f m.2)) = named ps (members.map fun m => f m.2) := by
  induction members generalizing ps with
  | nil =>
    cases ps with
    | nil => rfl
    | cons p ps => cases hnames
  | cons m members ih =>
    cases ps with
    | nil => cases hnames
    | cons p ps =>
      obtain ⟨hname, hrest⟩ := List.cons.inj hnames
      rw [List.map_cons, List.map_cons, ih hrest, hname]
      rfl

/-- **An object with exactly the properties of a table** is imported in order. -/
theorem importProperties_named {ps : List (Property S)} (hps : Unambiguous fold ps)
    {vs : List JsonValue} (hlen : ps.length = vs.length) (s : S) :
    importProperties fold (named ps vs) ps s = loadAll ps vs s := by
  refine importProperties_eq ((mem_named_of_forall₂ hlen).imp ?_) s
  intro p v hmem
  refine tryGetField_of_mem ?_ hmem
  rw [fold_named hlen]
  exact hps

end Rules

end StructJson
