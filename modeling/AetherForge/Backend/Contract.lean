import AetherForge.Library.JsonSchema
import AetherForge.Backend.Wire

/-!
# What Decode accepts

The schemas of the contract, with the fields it calls required, and the frames that `Decode`
accepts: one JSON object between spaces that carries this version and a known type, each of its
members a field of the contract at its place.  `Decode` asks for the version and the type, and for
no other field.

* `decode_accepts_iff` — the values that are accepted;
* `decode_strict` — what an accepted frame looks like;
* `uncheckedFields` — the required fields that `Decode` never asks for;
* `required_fields_iff` — an accepted frame has all required fields unless it lacks one of these.
-/

namespace AetherForge

open Go GoJson

/-! ### The contract -/

def vec2Schema : Schema := .record [⟨"x", .number, true⟩, ⟨"y", .number, true⟩]

def boundsSchema : Schema := .record [⟨"min", vec2Schema, true⟩, ⟨"max", vec2Schema, true⟩]

def transformSchema : Schema :=
  .record [⟨"location", vec2Schema, true⟩, ⟨"yaw", .number, true⟩, ⟨"scale", .number, true⟩]

def assetEntrySchema : Schema :=
  .record [⟨"category", .string, true⟩, ⟨"transform", transformSchema, true⟩,
    ⟨"ground_snap", .boolean, true⟩, ⟨"tags", .list .string, true⟩]

def manifestEntrySchema : Schema :=
  .record [⟨"footprint_radius", .number, true⟩, ⟨"ground_snap", .boolean, true⟩,
    ⟨"instanceable", .boolean, true⟩, ⟨"display_name", .string, true⟩]

def statsSchema : Schema :=
  .record [⟨"assets", .integer, true⟩, ⟨"elapsed_ms", .integer, true⟩, ⟨"llm_ms", .integer, true⟩]

def envelopeSchema : List SchemaField :=
  [⟨"protocol_version", .integer, true⟩, ⟨"type", .string, true⟩]

def helloSchema : Schema :=
  .record (envelopeSchema ++ [⟨"manifest", .dict manifestEntrySchema, true⟩])

def generateSchema : Schema :=
  .record (envelopeSchema ++
    [⟨"generation_id", .string, true⟩, ⟨"prompt", .string, true⟩, ⟨"seed", .integer, false⟩,
      ⟨"bounds", boundsSchema, true⟩])

def planSchema : Schema :=
  .record (envelopeSchema ++
    [⟨"generation_id", .string, true⟩, ⟨"seed", .integer, true⟩, ⟨"total_assets", .integer, true⟩,
      ⟨"categories", .dict .integer, true⟩])

def chunkSchema : Schema :=
  .record (envelopeSchema ++
    [⟨"generation_id", .string, true⟩, ⟨"assets", .list assetEntrySchema, true⟩])

def completeSchema : Schema :=
  .record (envelopeSchema ++ [⟨"generation_id", .string, true⟩, ⟨"stats", statsSchema, true⟩])

def errorSchema : Schema :=
  .record (envelopeSchema ++
    [⟨"generation_id", .string, true⟩, ⟨"code", .string, true⟩, ⟨"message", .string, true⟩,
      ⟨"recoverable", .boolean, true⟩])

def cancelSchema : Schema := .record (envelopeSchema ++ [⟨"generation_id", .string, true⟩])

/-- The schema of a message type. -/
def messageSchema (type : String) : Option Schema :=
  if type = TypeHello then some helloSchema
  else if type = TypeGenerate then some generateSchema
  else if type = TypePlan then some planSchema
  else if type = TypeChunk then some chunkSchema
  else if type = TypeComplete then some completeSchema
  else if type = TypeError then some errorSchema
  else if type = TypeCancel then some cancelSchema
  else none

/-! ### The decoders judge by the contract -/

theorem judges_vec2 : Judges decodeVec2 vec2Schema :=
  judges_struct (by decide +kernel)
    (.cons (fieldJudges_of judges_float64 _) (.cons (fieldJudges_of judges_float64 _) .nil))

theorem judges_bounds : Judges (decodeStruct true boundsFields) boundsSchema :=
  judges_struct (by decide +kernel)
    (.cons (fieldJudges_of judges_vec2 _) (.cons (fieldJudges_of judges_vec2 _) .nil))

theorem judges_transform : Judges (decodeStruct true transformFields) transformSchema :=
  judges_struct (by decide +kernel)
    (.cons (fieldJudges_of judges_vec2 _) (.cons (fieldJudges_of judges_float64 _)
      (.cons (fieldJudges_of judges_float64 _) .nil)))

theorem judges_assetEntry : Judges (decodeStruct true assetEntryFields) assetEntrySchema :=
  judges_struct (by decide +kernel)
    (.cons (fieldJudges_of judges_string _) (.cons (fieldJudges_of judges_transform _)
      (.cons (fieldJudges_of judges_bool _)
        (.cons (fieldJudges_of (judges_slice judges_string) _) .nil))))

theorem judges_manifestEntry :
    Judges (decodeStruct true manifestEntryFields) manifestEntrySchema :=
  judges_struct (by decide +kernel)
    (.cons (fieldJudges_of judges_float64 _) (.cons (fieldJudges_of judges_bool _)
      (.cons (fieldJudges_of judges_bool _) (.cons (fieldJudges_of judges_string _) .nil))))

theorem judges_stats : Judges (decodeStruct true statsFields) statsSchema :=
  judges_struct (by decide +kernel)
    (.cons (fieldJudges_of judges_int64 _) (.cons (fieldJudges_of judges_int64 _)
      (.cons (fieldJudges_of judges_int64 _) .nil)))

/-- The struct of a message type: the envelope and what comes after it. -/
theorem judges_message {S : Type} {env : Envelope S} {rest : List (StructField S)}
    {schema : List SchemaField} (hu : Unambiguous (env.fields ++ rest))
    (h : List.Forall₂ FieldJudges rest schema) :
    Judges (decodeStruct true (env.fields ++ rest)) (.record (envelopeSchema ++ schema)) :=
  judges_struct hu
    (.cons (fieldJudges_of judges_int64 _) (.cons (fieldJudges_of judges_string _) h))

theorem judges_hello : Judges (decodeStruct true helloFields) helloSchema :=
  judges_message heads_hello.unambiguous
    (.cons (fieldJudges_of (judges_map judges_manifestEntry) _) .nil)

theorem judges_generate : Judges (decodeStruct true generateFields) generateSchema :=
  judges_message heads_generate.unambiguous
    (.cons (fieldJudges_of judges_string _) (.cons (fieldJudges_of judges_string _)
      (.cons (fieldJudges_of (judges_pointer (Or.inl rfl) judges_int64) _)
        (.cons (fieldJudges_of judges_bounds _) .nil))))

theorem judges_plan : Judges (decodeStruct true planFields) planSchema :=
  judges_message heads_plan.unambiguous
    (.cons (fieldJudges_of judges_string _) (.cons (fieldJudges_of judges_int64 _)
      (.cons (fieldJudges_of judges_int64 _)
        (.cons (fieldJudges_of (judges_map judges_int64) _) .nil))))

theorem judges_chunk : Judges (decodeStruct true chunkFields) chunkSchema :=
  judges_message heads_chunk.unambiguous
    (.cons (fieldJudges_of judges_string _)
      (.cons (fieldJudges_of (judges_slice judges_assetEntry) _) .nil))

theorem judges_complete : Judges (decodeStruct true completeFields) completeSchema :=
  judges_message heads_complete.unambiguous
    (.cons (fieldJudges_of judges_string _) (.cons (fieldJudges_of judges_stats _) .nil))

theorem judges_error : Judges (decodeStruct true errorFields) errorSchema :=
  judges_message heads_error.unambiguous
    (.cons (fieldJudges_of judges_string _) (.cons (fieldJudges_of judges_string _)
      (.cons (fieldJudges_of judges_string _) (.cons (fieldJudges_of judges_bool _) .nil))))

theorem judges_cancel : Judges (decodeStruct true cancelFields) cancelSchema :=
  judges_message heads_cancel.unambiguous (.cons (fieldJudges_of judges_string _) .nil)

/-- The decoder of a message type, for its schema and the struct it gives. -/
structure DecodesType (type : String) (d : Json → Option Message) (s : Schema) : Prop where
  accepts : ∀ v, (∃ msg, d v = some msg) ↔ s.Fits v
  selects : ∀ v msg, d v = some msg → msg.discriminator = type

theorem decodesType_of {S : Type} {fields : List (StructField S)} {s : Schema} {type : String}
    [Inhabited S] (ctor : S → Message) (h : Judges (decodeStruct true fields) s)
    (hctor : ∀ m, (ctor m).discriminator = type) :
    DecodesType type (fun v => (decodeStruct true fields v default).map ctor) s where
  accepts v := by
    refine Iff.trans ?_ (h v default)
    simp only [exists_map_eq_some]
  selects v msg hmsg := by
    obtain ⟨m, -, rfl⟩ := Option.map_eq_some_iff.mp hmsg
    exact hctor m

/-- **A type has a decoder when it has a schema**, and the decoder judges by the schema. -/
theorem decodeMessage_cases (type : String) :
    (decodeMessage type = none ∧ messageSchema type = none) ∨
      ∃ d s, decodeMessage type = some d ∧ messageSchema type = some s ∧ DecodesType type d s := by
  unfold decodeMessage messageSchema
  split
  · rename_i h
    exact .inr ⟨_, _, rfl, rfl, decodesType_of .hello judges_hello fun _ => h.symm⟩
  split
  · rename_i h
    exact .inr ⟨_, _, rfl, rfl, decodesType_of .generate judges_generate fun _ => h.symm⟩
  split
  · rename_i h
    exact .inr ⟨_, _, rfl, rfl, decodesType_of .plan judges_plan fun _ => h.symm⟩
  split
  · rename_i h
    exact .inr ⟨_, _, rfl, rfl, decodesType_of .chunk judges_chunk fun _ => h.symm⟩
  split
  · rename_i h
    exact .inr ⟨_, _, rfl, rfl, decodesType_of .complete judges_complete fun _ => h.symm⟩
  split
  · rename_i h
    exact .inr ⟨_, _, rfl, rfl, decodesType_of .error judges_error fun _ => h.symm⟩
  split
  · rename_i h
    exact .inr ⟨_, _, rfl, rfl, decodesType_of .cancel judges_cancel fun _ => h.symm⟩
  · exact .inl ⟨rfl, rfl⟩

/-! ### The values that are accepted -/

def stringOf : Json → Option String
  | .str s => some s
  | _ => none

/-- The `type` that an object gives: the last string under the name. -/
def typeOf (members : List (String × Json)) : String :=
  (((valuesOf "type" members).filterMap stringOf).getLast?).getD ""

theorem decodeAll_string_eq {vs : List Json} {s t : String}
    (h : decodeAll decodeString vs s = some t) :
    t = ((vs.filterMap stringOf).getLast?).getD s := by
  induction vs generalizing s with
  | nil =>
    cases h
    rfl
  | cons v vs ih =>
    obtain ⟨s', hv, hrest⟩ := Option.bind_eq_some_iff.mp h
    cases v with
    | null =>
      cases hv
      exact ih hrest
    | str s' =>
      cases hv
      have hcons : (Json.str s' :: vs).filterMap stringOf = s' :: vs.filterMap stringOf := rfl
      rw [ih hrest, hcons, List.getLast?_cons]
      rfl
    | _ => cases hv

/-- The first pass reads the type and the version of an object that has them. -/
theorem decodeHead_eq {members : List (String × Json)} {n : ℤ} (h : CarriesVersion members n) :
    decodeHead (.obj members) = some ⟨typeOf members, some n⟩ := by
  obtain ⟨t, ht⟩ := (decodeHead_iff (.obj members) n).mpr ⟨members, rfl, h⟩
  have hpass : decodeHead (.obj members) = _ := decodeFields_head members "" none
  rw [ht] at hpass
  obtain ⟨t', htype, hrest⟩ := Option.bind_eq_some_iff.mp hpass.symm
  obtain ⟨p, -, heq⟩ := Option.map_eq_some_iff.mp hrest
  cases heq
  rw [ht, decodeAll_string_eq htype]
  rfl

/-- A value that carries this version and a known type and fits the schema of the type. -/
structure Accepted (members : List (String × Json)) (s : Schema) : Prop where
  version : CarriesVersion members Version
  schema : messageSchema (typeOf members) = some s
  fits : s.Fits (.obj members)

/-- A decoded value, with the message that it gives. -/
theorem decode_ok {explain : Option String → Json → String} {v : Json} {msg : Message}
    (h : decode explain (.ok v) = .ok msg) :
    ∃ members s, v = .obj members ∧ Accepted members s ∧ typeOf members = msg.discriminator := by
  rcases decode_cases explain (.ok v) with ⟨_, hdecode⟩ | ⟨_, _, _, _, _, _, hdecode⟩ |
    ⟨w, t, d, _, heq, hhead, hd, hmsg, hdecode⟩ <;> rw [hdecode] at h <;> cases h
  cases heq
  obtain ⟨members, rfl, hcarries⟩ := (decodeHead_iff v _).mp ⟨t, hhead⟩
  rw [decodeHead_eq hcarries] at hhead
  obtain rfl : typeOf members = t := congrArg Head.type (Option.some.inj hhead)
  rcases decodeMessage_cases (typeOf members) with ⟨hnone, _⟩ | ⟨d', s, hd', hs, hdecodes⟩
  · rw [hnone] at hd
    cases hd
  · rw [hd'] at hd
    cases hd
    exact ⟨members, s, rfl, ⟨hcarries, hs, (hdecodes.accepts _).mp ⟨_, hmsg⟩⟩,
      (hdecodes.selects _ _ hmsg).symm⟩

/-- **The values that are accepted.** -/
theorem decode_accepts_iff (explain : Option String → Json → String) (v : Json) :
    (∃ msg, decode explain (.ok v) = .ok msg) ↔
      ∃ members s, v = .obj members ∧ Accepted members s := by
  constructor
  · rintro ⟨msg, h⟩
    obtain ⟨members, s, hv, haccepted, -⟩ := decode_ok h
    exact ⟨members, s, hv, haccepted⟩
  · rintro ⟨members, s, rfl, hcarries, hs, hfits⟩
    rcases decodeMessage_cases (typeOf members) with ⟨_, hnone⟩ | ⟨d, s', hd, hs', hdecodes⟩
    · rw [hnone] at hs
      cases hs
    · rw [hs] at hs'
      cases hs'
      obtain ⟨msg, hmsg⟩ := (hdecodes.accepts _).mpr hfits
      refine ⟨msg, ?_⟩
      simp only [decode, decodeHead_eq hcarries, hd, hmsg, ne_eq, not_true, if_false]

/-! ### Strictness -/

/-- **What an accepted frame looks like**: one object between spaces, of the type of the message
that is returned, its members those of the contract at every level. -/
theorem decode_strict {complain : Bytes → String} {explain : Option String → Json → String}
    {data : Bytes} {msg : Message} (h : decodeData complain explain data = .ok msg) :
    ∃ u t w members s, data = u ++ t ++ w ∧ Spaces u ∧ Spaces w ∧
      Spells maxNestingDepth (.obj members) t ∧ typeOf members = msg.discriminator ∧
      msg.header = (Version, msg.discriminator) ∧
      messageSchema msg.discriminator = some s ∧ s.Fits (.obj members) := by
  rw [decodeData_eq, frameOf] at h
  cases hparse : parseText data with
  | none =>
    rw [hparse] at h
    cases h
  | some v =>
    rw [hparse] at h
    obtain ⟨members, s, rfl, haccepted, htype⟩ := decode_ok h
    obtain ⟨u, t, w, hu, hspells, hw, rfl⟩ := (parseText_iff data _).mp hparse
    exact ⟨u, t, w, members, s, rfl, hu, hw, hspells, htype, decode_envelope h,
      htype ▸ haccepted.schema, haccepted.fits⟩

/-- A cancel whose type is given three times, and not to the end in the same case. -/
def fickleCancel : List (String × Json) :=
  [("protocol_version", .null), ("type", .str TypeHello), ("generation_id", .str "gen-1"),
    ("TYPE", .str TypeCancel), ("protocol_version", .int 1), ("type", .null)]

/-- What it is decoded to. -/
def fickleMessage : Message := .cancel ⟨Version, TypeCancel, "gen-1"⟩

/-- The text of an object without fractions. -/
def textOf (members : List (String × Json)) : Bytes := printValue (fun _ => []) (.obj members)

theorem parseText_textOf {d : ℕ} {members : List (String × Json)}
    (h : Printable (fun _ => []) d (.obj members)) (hd : d ≤ maxNestingDepth) :
    parseText (textOf members) = some (.obj members) :=
  parseText_printValue (h.mono hd)

theorem decode_strict_fickle :
    ∃ u t w members s, textOf fickleCancel = u ++ t ++ w ∧ Spaces u ∧ Spaces w ∧
      Spells maxNestingDepth (.obj members) t ∧ typeOf members = fickleMessage.discriminator ∧
      fickleMessage.header = (Version, fickleMessage.discriminator) ∧
      messageSchema fickleMessage.discriminator = some s ∧ s.Fits (.obj members) := by
  have hprintable : Printable (fun _ => []) 1 (.obj fickleCancel) := by
    simp [Printable, fickleCancel]
  have hparse := parseText_textOf hprintable (by decide)
  have hdecode : decodeData (fun _ => "") (fun _ _ => "") (textOf fickleCancel) =
      .ok fickleMessage := by
    rw [decodeData_eq, frameOf, hparse]
    rfl
  exact decode_strict hdecode

/-! ### Required fields -/

/-- The required fields that `Decode` asks for. -/
def checkedFields : List Place := [.fields ["protocol_version"], .fields ["type"]]

/-- The required fields of a hello that it does not ask for. -/
def helloUnchecked : List Place :=
  [.field "manifest" .whole,
    .field "manifest" (.entry (.fields ["footprint_radius"])),
    .field "manifest" (.entry (.fields ["ground_snap"])),
    .field "manifest" (.entry (.fields ["instanceable"])),
    .field "manifest" (.entry (.fields ["display_name"]))]

def generateUnchecked : List Place :=
  [.fields ["generation_id"], .fields ["prompt"], .fields ["bounds"],
    .fields ["bounds", "min"], .fields ["bounds", "min", "x"], .fields ["bounds", "min", "y"],
    .fields ["bounds", "max"], .fields ["bounds", "max", "x"], .fields ["bounds", "max", "y"]]

def planUnchecked : List Place :=
  [.fields ["generation_id"], .fields ["seed"], .fields ["total_assets"],
    .field "categories" .whole]

def chunkUnchecked : List Place :=
  [.fields ["generation_id"], .field "assets" .whole,
    .field "assets" (.elem (.fields ["category"])),
    .field "assets" (.elem (.fields ["transform"])),
    .field "assets" (.elem (.fields ["transform", "location"])),
    .field "assets" (.elem (.fields ["transform", "location", "x"])),
    .field "assets" (.elem (.fields ["transform", "location", "y"])),
    .field "assets" (.elem (.fields ["transform", "yaw"])),
    .field "assets" (.elem (.fields ["transform", "scale"])),
    .field "assets" (.elem (.fields ["ground_snap"])),
    .field "assets" (.elem (.field "tags" .whole))]

def completeUnchecked : List Place :=
  [.fields ["generation_id"], .fields ["stats"], .fields ["stats", "assets"],
    .fields ["stats", "elapsed_ms"], .fields ["stats", "llm_ms"]]

def errorUnchecked : List Place :=
  [.fields ["generation_id"], .fields ["code"], .fields ["message"], .fields ["recoverable"]]

def cancelUnchecked : List Place := [.fields ["generation_id"]]

/-- The required fields that `Decode` never asks for, by the type of the message. -/
def uncheckedFields (type : String) : List Place :=
  if type = TypeHello then helloUnchecked
  else if type = TypeGenerate then generateUnchecked
  else if type = TypePlan then planUnchecked
  else if type = TypeChunk then chunkUnchecked
  else if type = TypeComplete then completeUnchecked
  else if type = TypeError then errorUnchecked
  else if type = TypeCancel then cancelUnchecked
  else []

/-- **What the contract requires** is what `Decode` asks for and what it does not. -/
theorem messageSchema_required {type : String} {s : Schema} (h : messageSchema type = some s) :
    s.required = checkedFields ++ uncheckedFields type := by
  revert h
  unfold messageSchema uncheckedFields
  split
  · rintro ⟨⟩
    rfl
  split
  · rintro ⟨⟩
    rfl
  split
  · rintro ⟨⟩
    rfl
  split
  · rintro ⟨⟩
    rfl
  split
  · rintro ⟨⟩
    rfl
  split
  · rintro ⟨⟩
    rfl
  split
  · rintro ⟨⟩
    rfl
  · exact fun h => by cases h

/-- No message has the empty type. -/
theorem typeOf_ne_empty {members : List (String × Json)} {s : Schema}
    (h : messageSchema (typeOf members) = some s) : typeOf members ≠ "" := by
  intro hempty
  rw [hempty] at h
  cases h

/-- An object with a type has a text among the values of its `type`. -/
theorem exists_type {members : List (String × Json)} (h : typeOf members ≠ "") :
    ∃ t, .str t ∈ valuesOf "type" members := by
  cases hlast : ((valuesOf "type" members).filterMap stringOf).getLast? with
  | none =>
    rw [typeOf, hlast] at h
    exact absurd rfl h
  | some t =>
    obtain ⟨v, hv, ht⟩ := List.mem_filterMap.mp (List.mem_of_getLast? hlast)
    cases v with
    | str t' => exact ⟨t', hv⟩
    | _ => cases ht

/-- **The guards account for the rest**: what `Decode` asks for is there. -/
theorem Accepted.checked {members : List (String × Json)} {s : Schema} (h : Accepted members s) :
    ∀ p ∈ checkedFields, ¬p.Missing [.obj members] := by
  simp only [checkedFields, List.forall_mem_cons, Place.missing_fields_obj]
  refine ⟨fun hnull => ?_, fun hnull => ?_, fun _ hp => absurd hp List.not_mem_nil⟩
  · cases hnull _ (List.mem_of_getLast? h.version.last)
  · obtain ⟨t, ht⟩ := exists_type (typeOf_ne_empty h.schema)
    cases hnull _ ht

/-- Every field that the contract requires of the message's type is given, at every level. -/
def AllRequired (data : Bytes) (msg : Message) : Prop :=
  ∃ v s, parseText data = some v ∧ messageSchema msg.discriminator = some s ∧
    ∀ p ∈ s.required, ¬p.Missing [v]

/-- One of the fields that `Decode` never asks for is missing. -/
def LacksUnchecked (members : List (String × Json)) : Prop :=
  ∃ p ∈ uncheckedFields (typeOf members), p.Missing [.obj members]

instance (members : List (String × Json)) : Decidable (LacksUnchecked members) :=
  inferInstanceAs (Decidable (∃ p ∈ _, _))

/-- An accepted object lacks nothing that is required unless it lacks one of these. -/
theorem Accepted.required_iff {members : List (String × Json)} {s : Schema}
    (h : Accepted members s) :
    (∀ p ∈ s.required, ¬p.Missing [.obj members]) ↔ ¬LacksUnchecked members := by
  rw [messageSchema_required h.schema, List.forall_mem_append, and_iff_right h.checked,
    LacksUnchecked]
  simp only [not_exists, not_and]

/-- **When acceptance means that nothing required is missing**: for every frame but those that are
otherwise in order and lack one of the fields that `Decode` never asks for. -/
theorem required_fields_iff (complain : Bytes → String) (explain : Option String → Json → String)
    (data : Bytes) :
    (∀ msg, decodeData complain explain data = .ok msg → AllRequired data msg) ↔
      ¬∃ members s, parseText data = some (.obj members) ∧ Accepted members s ∧
        LacksUnchecked members := by
  constructor
  · rintro hall ⟨members, s, hparse, haccepted, hlacks⟩
    obtain ⟨msg, hmsg⟩ := (decode_accepts_iff explain (.obj members)).mpr
      ⟨members, s, rfl, haccepted⟩
    have hdecode : decodeData complain explain data = .ok msg := by
      rw [decodeData_eq, frameOf, hparse]
      exact hmsg
    obtain ⟨_, s', hv, hs', hrequired⟩ := hall msg hdecode
    rw [hparse] at hv
    cases hv
    obtain ⟨_, s'', heq, haccepted', htype⟩ := decode_ok hmsg
    cases heq
    rw [← htype, haccepted.schema] at hs'
    cases hs'
    exact haccepted.required_iff.mp hrequired hlacks
  · intro hnone msg h
    rw [decodeData_eq, frameOf] at h
    cases hparse : parseText data with
    | none =>
      rw [hparse] at h
      cases h
    | some v =>
      rw [hparse] at h
      obtain ⟨members, s, rfl, haccepted, htype⟩ := decode_ok h
      refine ⟨_, s, hparse, htype ▸ haccepted.schema, haccepted.required_iff.mpr fun hlacks => ?_⟩
      exact hnone ⟨members, s, hparse, haccepted, hlacks⟩

/-- The bounds may come in two members, which add up. -/
example :
    ¬LacksUnchecked [("protocol_version", .int 1), ("type", .str TypeGenerate),
      ("generation_id", .str "gen-1"), ("prompt", .str "a meadow"),
      ("bounds", .obj [("min", .obj [("x", .int 0), ("y", .int 0)])]),
      ("bounds", .obj [("max", .obj [("x", .int 9), ("y", .int 9)])])] := by
  decide +kernel

/-- A manifest with an entry that has no footprint. -/
def bareHello : List (String × Json) :=
  [("protocol_version", .int 1), ("type", .str TypeHello),
    ("manifest", .obj [("tree", .obj [("display_name", .str "Tree")])])]

/-- What it is decoded to: the footprint is zero. -/
def bareMessage : Message :=
  .hello ⟨Version, TypeHello, GoMap.set (.make ∅) "tree" ⟨0, false, false, "Tree"⟩⟩

theorem parseText_bareHello : parseText (textOf bareHello) = some (.obj bareHello) := by
  have hprintable : Printable (fun _ => []) 3 (.obj bareHello) := by
    simp [Printable, bareHello]
  exact parseText_textOf hprintable (by decide)

/-- The entry has no footprint. -/
theorem bareHello_lacks :
    (Place.field "manifest" (.entry (.fields ["footprint_radius"]))).Missing [.obj bareHello] := by
  decide +kernel

/-- The frame is accepted although the entry has no footprint. -/
theorem bareHello_accepted :
    decodeData (fun _ => "") (fun _ _ => "") (textOf bareHello) = .ok bareMessage ∧
      ¬AllRequired (textOf bareHello) bareMessage := by
  constructor
  · rw [decodeData_eq, frameOf, parseText_bareHello]
    rfl
  · rintro ⟨v, s, hv, hs, hrequired⟩
    rw [parseText_bareHello] at hv
    cases hv
    refine hrequired _ ?_ bareHello_lacks
    rw [messageSchema_required hs]
    exact List.mem_append_right _ (.tail _ List.mem_cons_self)

end AetherForge
