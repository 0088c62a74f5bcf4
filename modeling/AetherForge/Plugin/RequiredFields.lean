import AetherForge.Backend.Contract
import AetherForge.Library.Presence
import AetherForge.Plugin.UnknownFields

/-!
# What an accepted frame has to have

The fields that the contract requires of each message from the server, and those of them that
`ParseServerMessage` has no guard for: a missing one keeps its default, and the check for unknown
fields runs the other way.

* `planRequired`, `chunkRequired`, `completeRequired`, `errorRequired` — the contract;
* `planUnguarded` … — the fields whose absence goes unnoticed;
* `parse_plan_iff` … — the frames that are accepted, by what is in them;
* `required_present_iff` — an accepted frame has all required fields unless it lacks one of these.
-/

namespace AetherForge.Plugin

open StructJson Requirement
open GoJson (Bytes Json Printable parseText)

/-! ### The contract -/

def locationRequired : List (String × Requirement) := [("x", value), ("y", value)]

def transformRequired : List (String × Requirement) :=
  [("location", record foldKey locationRequired), ("yaw", value), ("scale", value)]

/-- The fields of an asset entry besides its category. -/
def entryUnguarded : List (String × Requirement) :=
  [("transform", record foldKey transformRequired), ("ground_snap", value), ("tags", value)]

def entryRequired : List (String × Requirement) := ("category", value) :: entryUnguarded

def statsRequired : List (String × Requirement) :=
  [("assets", value), ("elapsed_ms", value), ("llm_ms", value)]

def envelopeRequired : List (String × Requirement) := [("protocol_version", value), ("type", value)]

def planUnguarded : List (String × Requirement) :=
  [("seed", value), ("total_assets", value), ("categories", value)]

def planRequired : List (String × Requirement) :=
  envelopeRequired ++ ("generation_id", value) :: planUnguarded

def chunkUnguarded : List (String × Requirement) :=
  [("assets", list (record foldKey entryUnguarded))]

def chunkRequired : List (String × Requirement) :=
  envelopeRequired ++
    [("generation_id", value), ("assets", list (record foldKey entryRequired))]

def completeUnguarded : List (String × Requirement) := [("stats", record foldKey statsRequired)]

def completeRequired : List (String × Requirement) :=
  envelopeRequired ++ ("generation_id", value) :: completeUnguarded

def errorUnguarded : List (String × Requirement) :=
  [("generation_id", value), ("message", value), ("recoverable", value)]

def errorRequired : List (String × Requirement) :=
  envelopeRequired ++ ("code", value) :: errorUnguarded

/-- What has to be in the frame of a message. -/
def ServerMessage.required : ServerMessage → Requirement
  | .plan _ => record foldKey planRequired
  | .chunk _ => record foldKey chunkRequired
  | .complete _ => record foldKey completeRequired
  | .error _ => record foldKey errorRequired
  | .invalid _ => fun _ => True

/-! ### The frames that are accepted -/

/-- The converter reads the object as a struct, and the check comes to no unknown key. -/
def Converts {S : Type} (ps : List (Property S)) (initial : S) (root : JsonObject) (s : S) : Prop :=
  importProperties foldKey root ps initial = some s ∧
    ∀ p, ¬UnknownKey (.object (exportProperties ps s)) (.object root) p

section Accepted

variable (E : Engine) (root : JsonObject)

/-- The text of a field of the frame. -/
def textAt (name : String) : String := E.text (tryGetField foldKey root name)

/-- An element of `assets` that gets a category: an object that has one, or what the engine makes
of another value. -/
def NamesCategory : JsonValue → Prop
  | .object members => textAt E members "category" ≠ ""
  | .null => False
  | v => ∃ a, E.importText AssetEntry v .default = some a ∧ a.category ≠ ""

/-- What lets a plan through: the converter, the check for unknown keys, and the guards. -/
def PlanPasses : Prop :=
  (∃ m, Converts (planProperties E.toConversions) {} root m) ∧ textAt E root "generation_id" ≠ "" ∧
    0 ≤ E.whole (tryGetField foldKey root "total_assets")

def ChunkPasses : Prop :=
  (∃ m, Converts (chunkProperties E.toConversions) {} root m) ∧
    textAt E root "generation_id" ≠ "" ∧
    ∀ v ∈ elemsOf (tryGetField foldKey root "assets"), NamesCategory E v

def CompletePasses : Prop :=
  (∃ m, Converts (completeProperties E.toConversions) {} root m) ∧
    textAt E root "generation_id" ≠ ""

def ErrorPasses : Prop :=
  (∃ m, Converts (errorProperties E.toConversions) {} root m) ∧ textAt E root "code" ≠ ""

/-- A frame of this version and of a type, up to its case. -/
def Headed (type : String) : Prop :=
  (tryGetField foldKey root "protocol_version").bind E.tryGetInt32 = some Version ∧
    ∃ t, (tryGetField foldKey root "type").bind E.tryGetString = some t ∧ foldKey t = foldKey type

/-- A frame with nothing wrong in it but that a field without a guard is missing. -/
def LacksUnguarded : Prop :=
  (Headed E root Type_Plan ∧ PlanPasses E root ∧ ¬record foldKey planUnguarded (.object root)) ∨
  (Headed E root Type_Chunk ∧ ChunkPasses E root ∧ ¬record foldKey chunkUnguarded (.object root)) ∨
  (Headed E root Type_Complete ∧ CompletePasses E root ∧
    ¬record foldKey completeUnguarded (.object root)) ∨
  (Headed E root Type_Error ∧ ErrorPasses E root ∧ ¬record foldKey errorUnguarded (.object root))

end Accepted

theorem strictDeserialize_eq_ok_iff {S : Type} {ps : List (Property S)} {initial s : S}
    {typeName : String} {root : JsonObject} :
    strictDeserialize ps initial typeName root = .ok s ↔ Converts ps initial root s := by
  unfold strictDeserialize Converts
  cases himport : importProperties foldKey root ps initial with
  | none => exact iff_of_false (fun h => by cases h) fun h => by cases h.1
  | some t =>
    simp only [uStructToJsonObject]
    rcases findUnknownField_reports (exportProperties ps t) "" root with
      ⟨hfind, hnone⟩ | ⟨p, hp, hfind⟩ <;> rw [hfind]
    · constructor
      · intro h
        cases h
        exact ⟨rfl, hnone⟩
      · rintro ⟨h, -⟩
        cases h
        rfl
    · refine iff_of_false (fun h => by cases h) ?_
      rintro ⟨h, hnone⟩
      cases h
      exact hnone p hp

/-! ### What a struct holds of its frame -/

section Held

variable {c : Conversions} {root : JsonObject}

theorem plan_generationId {m : PlanMessage}
    (h : importProperties foldKey root (planProperties c) {} = some m) :
    m.generationId = c.text (tryGetField foldKey root "generation_id") := by
  have hfield := importProperties_field (fun _ _ => rfl)
    [_, _] [_, _, _] (by simp [keeps_of]) (by simp [keeps_of]) h
  exact (Option.some.inj ((loadField_string _).symm.trans hfield)).symm

theorem plan_totalAssets {m : PlanMessage}
    (h : importProperties foldKey root (planProperties c) {} = some m) :
    m.totalAssets = c.whole (tryGetField foldKey root "total_assets") := by
  have hfield := importProperties_field (fun _ _ => rfl)
    [_, _, _, _] [_] (by simp [keeps_of]) (by simp [keeps_of]) h
  exact (Option.some.inj ((loadField_int32 _).symm.trans hfield)).symm

theorem chunk_generationId {m : ChunkMessage}
    (h : importProperties foldKey root (chunkProperties c) {} = some m) :
    m.generationId = c.text (tryGetField foldKey root "generation_id") := by
  have hfield := importProperties_field (fun _ _ => rfl)
    [_, _] [_] (by simp [keeps_of]) (by simp [keeps_of]) h
  exact (Option.some.inj ((loadField_string _).symm.trans hfield)).symm

/-- Each entry is loaded over the default one. -/
theorem chunk_assets {m : ChunkMessage}
    (h : importProperties foldKey root (chunkProperties c) {} = some m) :
    List.Forall₂ (fun v a =>
        (Kind.struct c foldKey (assetEntryProperties c)).load v .default = some a)
      (elemsOf (tryGetField foldKey root "assets")) m.assets :=
  forall₂_of_loadField_array (importProperties_field (fun _ _ => rfl)
    [_, _, _] [] (by simp [keeps_of]) (by simp) h)

theorem complete_generationId {m : CompleteMessage}
    (h : importProperties foldKey root (completeProperties c) {} = some m) :
    m.generationId = c.text (tryGetField foldKey root "generation_id") := by
  have hfield := importProperties_field (fun _ _ => rfl)
    [_, _] [_] (by simp [keeps_of]) (by simp [keeps_of]) h
  exact (Option.some.inj ((loadField_string _).symm.trans hfield)).symm

theorem error_code {m : ErrorMessage}
    (h : importProperties foldKey root (errorProperties c) {} = some m) :
    m.code = c.text (tryGetField foldKey root "code") := by
  have hfield := importProperties_field (fun _ _ => rfl)
    [_, _, _] [_, _] (by simp [keeps_of]) (by simp [keeps_of]) h
  exact (Option.some.inj ((loadField_string _).symm.trans hfield)).symm

theorem entry_category {members : JsonObject} {a : AssetEntry}
    (h : importProperties foldKey members (assetEntryProperties c) .default = some a) :
    a.category = c.text (tryGetField foldKey members "category") := by
  have hfield := importProperties_field (fun _ _ => rfl)
    [] [_, _, _] (by simp) (by simp [keeps_of]) h
  exact (Option.some.inj ((loadField_string _).symm.trans hfield)).symm

end Held

section Guards

variable {E : Engine} {root : JsonObject}

/-- The guard on the categories, on what the entries are loaded from. -/
theorem missingCategory_iff (index : ℕ) {vs : List JsonValue} {entries : List AssetEntry}
    (h : List.Forall₂ (fun v a => (Kind.struct E.toConversions foldKey
      (assetEntryProperties E.toConversions)).load v .default = some a) vs entries) :
    missingCategory index entries = none ↔ ∀ v ∈ vs, NamesCategory E v := by
  induction h generalizing index with
  | nil => exact iff_of_true rfl fun _ h => absurd h List.not_mem_nil
  | @cons v a vs entries hload _ ih =>
    have hnames : a.category ≠ "" ↔ NamesCategory E v := by
      cases v with
      | null =>
        cases hload
        exact iff_of_false (fun h => h rfl) id
      | object members =>
        rw [entry_category (c := E.toConversions) hload]
        rfl
      | _ =>
        constructor
        · exact fun h => ⟨a, hload, h⟩
        · rintro ⟨a', hload', h⟩
          cases hload.symm.trans hload'
          exact h
    rw [List.forall_mem_cons, ← hnames, ← ih (index + 1), missingCategory]
    by_cases hempty : a.category = ""
    · rw [if_pos hempty]
      exact iff_of_false (Option.some_ne_none index) fun h => h.1 hempty
    · rw [if_neg hempty]
      exact (and_iff_right hempty).symm

/-- A branch of the parser gives a message of its type, or the frame is invalid. -/
def Gives {S : Type} (result : ServerMessage) (ctor : S → ServerMessage) (passes : Prop) : Prop :=
  (passes ∧ ∃ m, result = ctor m) ∨ (¬passes ∧ ∃ e, result = .invalid e)

theorem gives_of_error {S : Type} {ps : List (Property S)} {initial : S} {typeName e : String}
    (h : strictDeserialize ps initial typeName root = .error e) (ctor : S → ServerMessage)
    (guard : Prop) :
    Gives (.invalid e) ctor ((∃ m, Converts ps initial root m) ∧ guard) := by
  refine .inr ⟨?_, e, rfl⟩
  rintro ⟨⟨m, hm⟩, -⟩
  cases h.symm.trans (strictDeserialize_eq_ok_iff.mpr hm)

theorem parsePlan_gives : Gives (parsePlan E root) .plan (PlanPasses E root) := by
  unfold parsePlan PlanPasses
  cases hstrict : strictDeserialize (planProperties E.toConversions) {} "plan" root with
  | error e => exact gives_of_error hstrict _ _
  | ok m =>
    have hm := strictDeserialize_eq_ok_iff.mp hstrict
    have hid : m.generationId = textAt E root "generation_id" := plan_generationId hm.1
    simp only [hid, plan_totalAssets hm.1]
    split
    · rename_i hempty
      exact .inr ⟨fun h => h.2.1 hempty, _, rfl⟩
    · rename_i hid'
      split
      · rename_i hnegative
        exact .inr ⟨fun h => absurd h.2.2 (not_le.mpr hnegative), _, rfl⟩
      · rename_i htotal
        exact .inl ⟨⟨⟨m, hm⟩, hid', not_lt.mp htotal⟩, m, rfl⟩

theorem parseChunk_gives : Gives (parseChunk E root) .chunk (ChunkPasses E root) := by
  unfold parseChunk ChunkPasses
  cases hstrict : strictDeserialize (chunkProperties E.toConversions) {} "chunk" root with
  | error e => exact gives_of_error hstrict _ _
  | ok m =>
    have hm := strictDeserialize_eq_ok_iff.mp hstrict
    have hid : m.generationId = textAt E root "generation_id" := chunk_generationId hm.1
    have hcategories := missingCategory_iff 0 (chunk_assets hm.1)
    simp only [hid]
    split
    · rename_i hempty
      exact .inr ⟨fun h => h.2.1 hempty, _, rfl⟩
    · rename_i hid'
      cases hmissing : missingCategory 0 m.assets with
      | some index =>
        refine .inr ⟨fun h => ?_, _, rfl⟩
        cases hmissing.symm.trans (hcategories.mpr h.2.2)
      | none => exact .inl ⟨⟨⟨m, hm⟩, hid', hcategories.mp hmissing⟩, m, rfl⟩

theorem parseComplete_gives : Gives (parseComplete E root) .complete (CompletePasses E root) := by
  unfold parseComplete CompletePasses
  cases hstrict : strictDeserialize (completeProperties E.toConversions) {} "complete" root with
  | error e => exact gives_of_error hstrict _ _
  | ok m =>
    have hm := strictDeserialize_eq_ok_iff.mp hstrict
    have hid : m.generationId = textAt E root "generation_id" := complete_generationId hm.1
    simp only [hid]
    split
    · rename_i hempty
      exact .inr ⟨fun h => h.2 hempty, _, rfl⟩
    · rename_i hid'
      exact .inl ⟨⟨⟨m, hm⟩, hid'⟩, m, rfl⟩

theorem parseError_gives : Gives (parseError E root) .error (ErrorPasses E root) := by
  unfold parseError ErrorPasses
  cases hstrict : strictDeserialize (errorProperties E.toConversions) {} "error" root with
  | error e => exact gives_of_error hstrict _ _
  | ok m =>
    have hm := strictDeserialize_eq_ok_iff.mp hstrict
    have hcode : m.code = textAt E root "code" := error_code hm.1
    simp only [hcode]
    split
    · rename_i hempty
      exact .inr ⟨fun h => h.2 hempty, _, rfl⟩
    · rename_i hcode'
      exact .inl ⟨⟨⟨m, hm⟩, hcode'⟩, m, rfl⟩

end Guards

/-! ### Presence -/

/-- `null` is neither a number nor a string. -/
structure Engine.RefusesNull (E : Engine) : Prop where
  int32 : E.tryGetInt32 .null = none
  string : E.tryGetString .null = none

section Presence

variable {E : Engine} {root : JsonObject}

theorem textAt_present {name : String} (h : textAt E root name ≠ "") :
    ∃ w, tryGetField foldKey root name = some w ∧ value w := exists_of_text_ne h

/-- A field that something is got from has a value. -/
theorem present_of_bind {α : Type} {o : Option JsonValue} {get : JsonValue → Option α} {a : α}
    (hnull : get .null = none) (h : o.bind get = some a) : ∃ w, o = some w ∧ value w := by
  obtain ⟨w, hw, hget⟩ := Option.bind_eq_some_iff.mp h
  refine ⟨w, hw, fun hwnull => ?_⟩
  rw [hwnull, hnull] at hget
  cases hget

theorem Headed.envelope {type : String} (h : Headed E root type) (hE : E.RefusesNull) :
    record foldKey envelopeRequired (.object root) := by
  obtain ⟨hversion, t, ht, -⟩ := h
  refine record_cons.mpr ⟨present_of_bind hE.int32 hversion, ?_⟩
  refine record_cons.mpr ⟨present_of_bind hE.string ht, ?_⟩
  exact record_object.mpr fun _ h => absurd h List.not_mem_nil

/-- The entries have all that is required when the guard holds and nothing else is missing. -/
theorem entries_required {v : JsonValue}
    (h : ∀ w ∈ elemsOf (some v), NamesCategory E w) :
    list (record foldKey entryRequired) v ↔ list (record foldKey entryUnguarded) v := by
  constructor
  · rintro ⟨vs, rfl, hvs⟩
    refine ⟨vs, rfl, fun w hw => ?_⟩
    obtain ⟨members, rfl, -⟩ := hvs w hw
    exact (record_cons.mp (hvs _ hw)).2
  · rintro ⟨vs, rfl, hvs⟩
    refine ⟨vs, rfl, fun w hw => ?_⟩
    obtain ⟨members, rfl, -⟩ := hvs w hw
    exact record_cons.mpr ⟨textAt_present (h _ hw), hvs _ hw⟩

/-- **The guards account for the rest**: a message has all that is required when nothing without
a guard is missing. -/
theorem planRequired_iff (hE : E.RefusesNull) (hhead : Headed E root Type_Plan)
    (h : PlanPasses E root) :
    record foldKey planRequired (.object root) ↔ record foldKey planUnguarded (.object root) := by
  rw [planRequired, record_append, and_iff_right (hhead.envelope hE), record_cons,
    and_iff_right (textAt_present h.2.1)]

theorem chunkRequired_iff (hE : E.RefusesNull) (hhead : Headed E root Type_Chunk)
    (h : ChunkPasses E root) :
    record foldKey chunkRequired (.object root) ↔ record foldKey chunkUnguarded (.object root) := by
  rw [chunkRequired, record_append, and_iff_right (hhead.envelope hE), record_cons,
    and_iff_right (textAt_present h.2.1), chunkUnguarded, record_cons, record_cons]
  refine and_congr_left fun _ => exists_congr fun v => and_congr_right fun hv => ?_
  have hnames := h.2.2
  rw [hv] at hnames
  exact entries_required hnames

theorem completeRequired_iff (hE : E.RefusesNull) (hhead : Headed E root Type_Complete)
    (h : CompletePasses E root) :
    record foldKey completeRequired (.object root) ↔
      record foldKey completeUnguarded (.object root) := by
  rw [completeRequired, record_append, and_iff_right (hhead.envelope hE), record_cons,
    and_iff_right (textAt_present h.2)]

theorem errorRequired_iff (hE : E.RefusesNull) (hhead : Headed E root Type_Error)
    (h : ErrorPasses E root) :
    record foldKey errorRequired (.object root) ↔ record foldKey errorUnguarded (.object root) := by
  rw [errorRequired, record_append, and_iff_right (hhead.envelope hE), record_cons,
    and_iff_right (textAt_present h.2)]

/-- What a branch of the parser gives has all that is required unless it passes with something
missing. -/
theorem Gives.required_iff {S : Type} {result : ServerMessage} {ctor : S → ServerMessage}
    {passes : Prop} {unguarded : Requirement} (h : Gives result ctor passes)
    (hrequired : passes → ∀ m, (ctor m).required (.object root) ↔ unguarded (.object root)) :
    result.required (.object root) ↔ ¬(passes ∧ ¬unguarded (.object root)) := by
  rcases h with ⟨hpasses, m, rfl⟩ | ⟨hpasses, e, rfl⟩
  · rw [hrequired hpasses m, not_and, not_not]
    exact ⟨fun h _ => h, fun h => h hpasses⟩
  · exact iff_of_true trivial fun h => hpasses h.1

theorem headed_iff {t type : String}
    (hversion : (tryGetField foldKey root "protocol_version").bind E.tryGetInt32 = some Version)
    (ht : (tryGetField foldKey root "type").bind E.tryGetString = some t) :
    Headed E root type ↔ foldKey t = foldKey type := by
  refine (and_iff_right hversion).trans ⟨?_, fun h => ⟨t, ht, h⟩⟩
  rintro ⟨t', ht', h⟩
  cases ht.symm.trans ht'
  exact h

/-- The branch of a type, with the fields of the other types out of the question. -/
theorem parseTyped_required (hE : E.RefusesNull) {t : String}
    (hversion : (tryGetField foldKey root "protocol_version").bind E.tryGetInt32 = some Version)
    (ht : (tryGetField foldKey root "type").bind E.tryGetString = some t) :
    (parseTyped E t root).required (.object root) ↔ ¬LacksUnguarded E root := by
  have hpc : foldKey Type_Plan ≠ foldKey Type_Chunk := by decide +kernel
  have hpm : foldKey Type_Plan ≠ foldKey Type_Complete := by decide +kernel
  have hpe : foldKey Type_Plan ≠ foldKey Type_Error := by decide +kernel
  have hcm : foldKey Type_Chunk ≠ foldKey Type_Complete := by decide +kernel
  have hce : foldKey Type_Chunk ≠ foldKey Type_Error := by decide +kernel
  have hme : foldKey Type_Complete ≠ foldKey Type_Error := by decide +kernel
  have hhead {type : String} : Headed E root type ↔ foldKey t = foldKey type :=
    headed_iff hversion ht
  simp only [LacksUnguarded, hhead]
  unfold parseTyped
  split
  · rename_i h
    rw [parsePlan_gives.required_iff fun hpasses _ => planRequired_iff hE (hhead.mpr h) hpasses]
    simp [h, hpc, hpm, hpe]
  split
  · rename_i h
    rw [parseChunk_gives.required_iff fun hpasses _ => chunkRequired_iff hE (hhead.mpr h) hpasses]
    simp [h, hpc.symm, hcm, hce]
  split
  · rename_i h
    rw [parseComplete_gives.required_iff fun hpasses _ =>
      completeRequired_iff hE (hhead.mpr h) hpasses]
    simp [h, hpm.symm, hcm.symm, hme]
  split
  · rename_i h
    rw [parseError_gives.required_iff fun hpasses _ => errorRequired_iff hE (hhead.mpr h) hpasses]
    simp [h, hpe.symm, hce.symm, hme.symm]
  · rename_i hplan hchunk hcomplete herror
    refine iff_of_true trivial ?_
    rintro (⟨h, -⟩ | ⟨h, -⟩ | ⟨h, -⟩ | ⟨h, -⟩)
    exacts [hplan h, hchunk h, hcomplete h, herror h]

theorem LacksUnguarded.headed (h : LacksUnguarded E root) : ∃ type, Headed E root type := by
  rcases h with ⟨h, -⟩ | ⟨h, -⟩ | ⟨h, -⟩ | ⟨h, -⟩ <;> exact ⟨_, h⟩

/-- **When an accepted frame is complete**: every field that the contract requires of its type is
in it, at every level, unless it has nothing wrong in it but that a field without a guard is
missing. -/
theorem required_present_iff (hE : E.RefusesNull) {data : Bytes}
    (hroot : E.deserialize data = .ok root) :
    (parseServerMessage E data).required (.object root) ↔ ¬LacksUnguarded E root := by
  simp only [parseServerMessage, hroot]
  cases hversion : (tryGetField foldKey root "protocol_version").bind E.tryGetInt32 with
  | none =>
    refine iff_of_true trivial fun hlacks => ?_
    obtain ⟨type, h⟩ := hlacks.headed
    cases hversion.symm.trans h.1
  | some version =>
    by_cases hcurrent : version = Version
    case neg =>
      simp only [ne_eq, hcurrent, not_false_eq_true, if_true]
      refine iff_of_true trivial fun hlacks => ?_
      obtain ⟨type, h⟩ := hlacks.headed
      cases hversion.symm.trans h.1
      exact hcurrent rfl
    subst hcurrent
    simp only [ne_eq, not_true, if_false]
    cases ht : (tryGetField foldKey root "type").bind E.tryGetString with
    | none =>
      refine iff_of_true trivial fun hlacks => ?_
      obtain ⟨type, -, t, h, -⟩ := hlacks.headed
      cases ht.symm.trans h
    | some t => exact parseTyped_required hE hversion ht

end Presence

/-- A chunk whose entry has nothing but its category. -/
def bareChunk : List (String × Json) :=
  [("protocol_version", .int 1), ("type", .str "chunk"), ("generation_id", .str "gen-1"),
    ("assets", .arr [.obj [("category", .str "oak")]])]

def bareRoot : JsonObject :=
  [("protocol_version", .number 1), ("type", .string "chunk"), ("generation_id", .string "gen-1"),
    ("assets", .array [.object [("category", .string "oak")]])]

/-- What it is parsed as: an asset at the origin. -/
def bareEntries : ChunkMessage := ⟨1, "chunk", "gen-1", [⟨"oak", ⟨⟨0, 0⟩, 0, 1⟩, false, []⟩]⟩

theorem read_bareChunk : read (.obj bareChunk) = .object bareRoot := by
  have hentry : read (.obj [("category", .str "oak")]) = .object [("category", .string "oak")] :=
    ofJson_obj foldKey (by decide +kernel)
  have hentries : read (.arr [.obj [("category", .str "oak")]]) =
      .array [read (.obj [("category", .str "oak")])] := rfl
  rw [bareChunk, read, ofJson_obj foldKey (by decide +kernel)]
  simp only [List.map_cons, List.map_nil, hentries, hentry, read_int (show |1| ≤ 2 ^ 53 by decide)]
  rfl

theorem deserialize_bareChunk : plainEngine.deserialize (textOf bareChunk) = .ok bareRoot := by
  have hprintable : Printable (fun _ => []) 3 (.obj bareChunk) := by
    simp [Printable, bareChunk]
  have hparse : (parseText (textOf bareChunk)).map read = some (.object bareRoot) := by
    rw [parseText_textOf hprintable (by decide), Option.map_some, read_bareChunk]
  simp only [plainEngine, hparse]

theorem parse_bareChunk :
    parseServerMessage plainEngine (textOf bareChunk) = .chunk bareEntries := by
  simp only [parseServerMessage, deserialize_bareChunk]
  rfl

/-- The entry has no transform. -/
theorem bareRoot_incomplete : ¬(ServerMessage.chunk bareEntries).required (.object bareRoot) := by
  rintro ⟨_, heq, hrequired⟩
  cases heq
  obtain ⟨_, hassets, vs, rfl, hentries⟩ :=
    hrequired ("assets", list (record foldKey entryRequired)) (by simp [chunkRequired])
  cases hassets
  obtain ⟨_, heq, hrequired⟩ := hentries _ (List.mem_singleton_self _)
  cases heq
  obtain ⟨_, htransform, -⟩ :=
    hrequired ("transform", record foldKey transformRequired)
      (by simp [entryRequired, entryUnguarded])
  cases htransform

/-- **A bare frame is accepted**: its entry has no transform, and stands at the origin. -/
theorem bareChunk_accepted :
    plainEngine.deserialize (textOf bareChunk) = .ok bareRoot ∧
      parseServerMessage plainEngine (textOf bareChunk) = .chunk bareEntries ∧
      ¬(ServerMessage.chunk bareEntries).required (.object bareRoot) :=
  ⟨deserialize_bareChunk, parse_bareChunk, bareRoot_incomplete⟩

theorem plainEngine_refusesNull : plainEngine.RefusesNull := ⟨rfl, rfl⟩

/-- What the bare frame lacks has no guard. -/
theorem required_present_iff_bare : LacksUnguarded plainEngine bareRoot := by
  have hiff := required_present_iff plainEngine_refusesNull deserialize_bareChunk
  rw [parse_bareChunk] at hiff
  exact not_not.mp fun hnot => bareRoot_incomplete (hiff.mpr hnot)

end AetherForge.Plugin
