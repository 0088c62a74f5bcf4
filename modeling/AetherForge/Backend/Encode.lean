import AetherForge.Library.GoJsonMaps
import AetherForge.Backend.Decode

/-!
# Encoding a wire message

`json.Marshal` on the message structs of `protocol.go`, as the JSON value it writes: a member for
each field under its tag, in the order of the declaration.  `seed` is omitted when it is `nil`; a
`nil` slice or map is `null`.  The number that is written for a `float64` is a parameter.

* `Message.EachFloat`, `Message.EachInt` — what holds of the numbers of a message;
* `decode_encodeMessage` — a message is decoded as it was encoded.
-/

namespace AetherForge

open Go GoJson

/-! ### Encoders -/

section Encoders

variable (number : ℚ → Json)

def encodeVec2 (p : Vec2) : Json := .obj [("x", number p.x), ("y", number p.y)]

def encodeBounds (b : Bounds) : Json :=
  .obj [("min", encodeVec2 number b.min), ("max", encodeVec2 number b.max)]

def encodeTransform (t : Transform) : Json :=
  .obj [("location", encodeVec2 number t.location), ("yaw", number t.yaw),
    ("scale", number t.scale)]

def encodeAssetEntry (a : AssetEntry) : Json :=
  .obj [("category", .str a.category), ("transform", encodeTransform number a.transform),
    ("ground_snap", .bool a.groundSnap), ("tags", encodeSlice .str a.tags)]

def encodeManifestEntry (e : ManifestEntry) : Json :=
  .obj [("footprint_radius", number e.footprintRadius), ("ground_snap", .bool e.groundSnap),
    ("instanceable", .bool e.instanceable), ("display_name", .str e.displayName)]

def encodeStats (st : Stats) : Json :=
  .obj [("assets", .int st.assets), ("elapsed_ms", .int st.elapsedMs), ("llm_ms", .int st.llmMs)]

/-- The two members that every message begins with, and the rest. -/
def encodeEnvelope (version : ℤ) (type : String) (rest : List (String × Json)) : Json :=
  .obj (("protocol_version", .int version) :: ("type", .str type) :: rest)

def encodeHello (m : Hello) : Json :=
  encodeEnvelope m.protocolVersion m.type
    [("manifest", encodeMap (encodeManifestEntry number) m.manifest)]

def encodeGenerate (m : Generate) : Json :=
  encodeEnvelope m.protocolVersion m.type
    (("generation_id", .str m.generationId) :: ("prompt", .str m.prompt) ::
      ((m.seed.toList.map fun n => ("seed", .int n)) ++
        [("bounds", encodeBounds number m.bounds)]))

def encodePlan (m : Plan) : Json :=
  encodeEnvelope m.protocolVersion m.type
    [("generation_id", .str m.generationId), ("seed", .int m.seed),
      ("total_assets", .int m.totalAssets), ("categories", encodeMap .int m.categories)]

def encodeChunk (m : Chunk) : Json :=
  encodeEnvelope m.protocolVersion m.type
    [("generation_id", .str m.generationId),
      ("assets", encodeSlice (encodeAssetEntry number) m.assets)]

def encodeComplete (m : Complete) : Json :=
  encodeEnvelope m.protocolVersion m.type
    [("generation_id", .str m.generationId), ("stats", encodeStats m.stats)]

def encodeError (m : Error) : Json :=
  encodeEnvelope m.protocolVersion m.type
    [("generation_id", .str m.generationId), ("code", .str m.code), ("message", .str m.message),
      ("recoverable", .bool m.recoverable)]

def encodeCancel (m : Cancel) : Json :=
  encodeEnvelope m.protocolVersion m.type [("generation_id", .str m.generationId)]

/-- The value that `json.Marshal` writes. -/
def encodeMessage : Message → Json
  | .hello m => encodeHello number m
  | .generate m => encodeGenerate number m
  | .plan m => encodePlan m
  | .chunk m => encodeChunk number m
  | .complete m => encodeComplete m
  | .error m => encodeError m
  | .cancel m => encodeCancel m

end Encoders

/-! ### The numbers of a message -/

section Numbers

variable (P : ℚ → Prop) (Q : ℤ → Prop)

def Vec2.EachFloat (p : Vec2) : Prop := P p.x ∧ P p.y

def Bounds.EachFloat (b : Bounds) : Prop := b.min.EachFloat P ∧ b.max.EachFloat P

def Transform.EachFloat (t : Transform) : Prop := t.location.EachFloat P ∧ P t.yaw ∧ P t.scale

/-- What holds of every `float64` in a message. -/
def Message.EachFloat : Message → Prop
  | .hello m => ∀ k e, m.manifest.get? k = some e → P e.footprintRadius
  | .generate m => m.bounds.EachFloat P
  | .chunk m => ∀ a ∈ m.assets.elems, a.transform.EachFloat P
  | .plan _ => True
  | .complete _ => True
  | .error _ => True
  | .cancel _ => True

/-- What holds of every integer in a message but its version. -/
def Message.EachInt : Message → Prop
  | .generate m => ∀ n, m.seed = some n → Q n
  | .plan m => Q m.seed ∧ Q m.totalAssets ∧ ∀ k n, m.categories.get? k = some n → Q n
  | .complete m => Q m.stats.assets ∧ Q m.stats.elapsedMs ∧ Q m.stats.llmMs
  | .hello _ => True
  | .chunk _ => True
  | .error _ => True
  | .cancel _ => True

end Numbers

section RoundTrips

variable {number : ℚ → Json}

/-- The number that is written for a `float64` reads back to it. -/
def ReadsBack (number : ℚ → Json) (q : ℚ) : Prop := Decodes decodeFloat64 (number q) q

/-! ### Round trips of the parts -/

theorem decodes_bool (b : Bool) : Decodes decodeBool (.bool b) b := fun _ => rfl

theorem decodes_vec2 {p : Vec2} (h : p.EachFloat (ReadsBack number)) :
    Decodes decodeVec2 (encodeVec2 number p) p := by
  intro held
  show decodeFields true vec2Fields _ held = some p
  rw [decodeFields_cons rfl (h.1 _), decodeFields_cons rfl (h.2 _)]
  rfl

theorem decodes_bounds {b : Bounds} (h : b.EachFloat (ReadsBack number)) :
    Decodes (decodeStruct true boundsFields) (encodeBounds number b) b := by
  intro held
  show decodeFields true boundsFields _ held = some b
  rw [decodeFields_cons rfl (decodes_vec2 h.1 _), decodeFields_cons rfl (decodes_vec2 h.2 _)]
  rfl

theorem decodes_transform {t : Transform} (h : t.EachFloat (ReadsBack number)) :
    Decodes (decodeStruct true transformFields) (encodeTransform number t) t := by
  intro held
  show decodeFields true transformFields _ held = some t
  rw [decodeFields_cons rfl (decodes_vec2 h.1 _), decodeFields_cons rfl (h.2.1 _),
    decodeFields_cons rfl (h.2.2 _)]
  rfl

theorem decodes_assetEntry {a : AssetEntry} (h : a.transform.EachFloat (ReadsBack number)) :
    Decodes (decodeStruct true assetEntryFields) (encodeAssetEntry number a) a := by
  intro held
  have htags : Decodes (decodeSlice "" decodeString) (encodeSlice .str a.tags) a.tags :=
    decodes_slice fun s _ => decodes_string s
  show decodeFields true assetEntryFields _ held = some a
  rw [decodeFields_cons rfl (decodes_string _ _), decodeFields_cons rfl (decodes_transform h _),
    decodeFields_cons rfl (decodes_bool _ _), decodeFields_cons rfl (htags _)]
  rfl

theorem decodes_manifestEntry {e : ManifestEntry} (h : ReadsBack number e.footprintRadius) :
    Decodes (decodeStruct true manifestEntryFields) (encodeManifestEntry number e) e := by
  intro held
  show decodeFields true manifestEntryFields _ held = some e
  rw [decodeFields_cons rfl (h _), decodeFields_cons rfl (decodes_bool _ _),
    decodeFields_cons rfl (decodes_bool _ _), decodeFields_cons rfl (decodes_string _ _)]
  rfl

theorem decodes_stats {st : Stats}
    (h : InInt64 st.assets ∧ InInt64 st.elapsedMs ∧ InInt64 st.llmMs) :
    Decodes (decodeStruct true statsFields) (encodeStats st) st := by
  intro held
  show decodeFields true statsFields _ held = some st
  rw [decodeFields_cons rfl (decodes_int64 h.1 _), decodeFields_cons rfl (decodes_int64 h.2.1 _),
    decodeFields_cons rfl (decodes_int64 h.2.2 _)]
  rfl

/-! ### Round trips of the messages -/

/-- The first pass reads the two leading members and skips the rest. -/
theorem decodeHead_encodeEnvelope {version : ℤ} {type : String} {rest : List (String × Json)}
    (hversion : InInt64 version) (names : List String) (hnames : rest.map Prod.fst = names)
    (hskip : ∀ k ∈ names, (fieldNamed headFields k).isNone = true) :
    decodeHead (encodeEnvelope version type rest) = some ⟨type, some version⟩ := by
  have hrest : ∀ s, decodeFields false headFields rest s = some s := by
    intro s
    subst hnames
    induction rest with
    | nil => rfl
    | cons p rest ih =>
      obtain ⟨k, v⟩ := p
      rw [List.map_cons, List.forall_mem_cons, Option.isNone_iff_eq_none] at hskip
      simp only [decodeFields, hskip.1, Bool.false_eq_true, if_false]
      exact ih hskip.2
  have hpointer : decodePointer 0 decodeInt64 (.int version) none = some (some version) := by
    simp only [decodePointer, decodeInt64, if_pos hversion, Option.map_some]
  show decodeFields false headFields _ ⟨"", none⟩ = _
  rw [decodeFields_cons rfl hpointer, decodeFields_cons rfl (decodes_string _ _)]
  exact hrest _

theorem decode_encodeHello {m : Hello} (hversion : InInt64 m.protocolVersion)
    (h : (Message.hello m).EachFloat (ReadsBack number)) :
    decodeStruct true helloFields (encodeHello number m) default = some m := by
  have hmanifest : decodeMap default (decodeStruct true manifestEntryFields)
      (encodeMap (encodeManifestEntry number) m.manifest) .nil = some m.manifest :=
    decodeMap_encodeMap fun k e he => decodes_manifestEntry (h k e he)
  show decodeFields true helloFields _ default = some m
  rw [decodeFields_cons rfl (decodes_int64 hversion _), decodeFields_cons rfl (decodes_string _ _),
    decodeFields_cons rfl hmanifest]
  rfl

theorem decode_encodeGenerate {m : Generate} (hversion : InInt64 m.protocolVersion)
    (hfloat : (Message.generate m).EachFloat (ReadsBack number))
    (hint : (Message.generate m).EachInt InInt64) :
    decodeStruct true generateFields (encodeGenerate number m) default = some m := by
  show decodeFields true generateFields _ default = some m
  rw [decodeFields_cons rfl (decodes_int64 hversion _), decodeFields_cons rfl (decodes_string _ _),
    decodeFields_cons rfl (decodes_string _ _), decodeFields_cons rfl (decodes_string _ _)]
  cases hseed : m.seed with
  | none =>
    rw [Option.toList_none, List.map_nil, List.nil_append,
      decodeFields_cons rfl (decodes_bounds hfloat _), decodeFields_nil]
    obtain ⟨version, type, generationId, prompt, seed, bounds⟩ := m
    obtain rfl : seed = none := hseed
    rfl
  | some n =>
    have hpointer : decodePointer 0 decodeInt64 (.int n) none = some (some n) := by
      simp only [decodePointer, decodeInt64, if_pos (hint n hseed), Option.map_some]
    rw [Option.toList_some, List.map_cons, List.map_nil, List.singleton_append,
      decodeFields_cons rfl hpointer, decodeFields_cons rfl (decodes_bounds hfloat _),
      decodeFields_nil]
    obtain ⟨version, type, generationId, prompt, seed, bounds⟩ := m
    obtain rfl : seed = some n := hseed
    rfl

theorem decode_encodePlan {m : Plan} (hversion : InInt64 m.protocolVersion)
    (h : (Message.plan m).EachInt InInt64) :
    decodeStruct true planFields (encodePlan m) default = some m := by
  have hcategories : decodeMap 0 decodeInt64 (encodeMap .int m.categories) .nil =
      some m.categories :=
    decodeMap_encodeMap fun k n hn => decodes_int64 (h.2.2 k n hn)
  show decodeFields true planFields _ default = some m
  rw [decodeFields_cons rfl (decodes_int64 hversion _), decodeFields_cons rfl (decodes_string _ _),
    decodeFields_cons rfl (decodes_string _ _), decodeFields_cons rfl (decodes_int64 h.1 _),
    decodeFields_cons rfl (decodes_int64 h.2.1 _), decodeFields_cons rfl hcategories]
  rfl

theorem decode_encodeChunk {m : Chunk} (hversion : InInt64 m.protocolVersion)
    (h : (Message.chunk m).EachFloat (ReadsBack number)) :
    decodeStruct true chunkFields (encodeChunk number m) default = some m := by
  have hassets : Decodes (decodeSlice default (decodeStruct true assetEntryFields))
      (encodeSlice (encodeAssetEntry number) m.assets) m.assets :=
    decodes_slice fun a ha => decodes_assetEntry (h a ha)
  show decodeFields true chunkFields _ default = some m
  rw [decodeFields_cons rfl (decodes_int64 hversion _), decodeFields_cons rfl (decodes_string _ _),
    decodeFields_cons rfl (decodes_string _ _), decodeFields_cons rfl (hassets _)]
  rfl

theorem decode_encodeComplete {m : Complete} (hversion : InInt64 m.protocolVersion)
    (h : (Message.complete m).EachInt InInt64) :
    decodeStruct true completeFields (encodeComplete m) default = some m := by
  show decodeFields true completeFields _ default = some m
  rw [decodeFields_cons rfl (decodes_int64 hversion _), decodeFields_cons rfl (decodes_string _ _),
    decodeFields_cons rfl (decodes_string _ _), decodeFields_cons rfl (decodes_stats h _)]
  rfl

theorem decode_encodeError {m : Error} (hversion : InInt64 m.protocolVersion) :
    decodeStruct true errorFields (encodeError m) default = some m := by
  show decodeFields true errorFields _ default = some m
  rw [decodeFields_cons rfl (decodes_int64 hversion _), decodeFields_cons rfl (decodes_string _ _),
    decodeFields_cons rfl (decodes_string _ _), decodeFields_cons rfl (decodes_string _ _),
    decodeFields_cons rfl (decodes_string _ _), decodeFields_cons rfl (decodes_bool _ _)]
  rfl

theorem decode_encodeCancel {m : Cancel} (hversion : InInt64 m.protocolVersion) :
    decodeStruct true cancelFields (encodeCancel m) default = some m := by
  show decodeFields true cancelFields _ default = some m
  rw [decodeFields_cons rfl (decodes_int64 hversion _), decodeFields_cons rfl (decodes_string _ _),
    decodeFields_cons rfl (decodes_string _ _)]
  rfl

/-- The first pass of an encoded message. -/
theorem decodeHead_encodeMessage {m : Message} (hversion : InInt64 m.header.1) :
    decodeHead (encodeMessage number m) = some ⟨m.header.2, some m.header.1⟩ := by
  cases m with
  | hello m => exact decodeHead_encodeEnvelope hversion ["manifest"] rfl (by decide +kernel)
  | generate m =>
    cases hseed : m.seed with
    | none =>
      refine decodeHead_encodeEnvelope hversion ["generation_id", "prompt", "bounds"] ?_
        (by decide +kernel)
      rw [hseed]
      rfl
    | some n =>
      refine decodeHead_encodeEnvelope hversion ["generation_id", "prompt", "seed", "bounds"] ?_
        (by decide +kernel)
      rw [hseed]
      rfl
  | plan m =>
    exact decodeHead_encodeEnvelope hversion
      ["generation_id", "seed", "total_assets", "categories"] rfl (by decide +kernel)
  | chunk m =>
    exact decodeHead_encodeEnvelope hversion ["generation_id", "assets"] rfl (by decide +kernel)
  | complete m =>
    exact decodeHead_encodeEnvelope hversion ["generation_id", "stats"] rfl (by decide +kernel)
  | error m =>
    exact decodeHead_encodeEnvelope hversion ["generation_id", "code", "message", "recoverable"]
      rfl (by decide +kernel)
  | cancel m =>
    exact decodeHead_encodeEnvelope hversion ["generation_id"] rfl (by decide +kernel)

theorem inInt64_version : InInt64 Version := by decide

/-- The second pass of an encoded message. -/
theorem decodeMessage_encodeMessage {m : Message} (hversion : InInt64 m.header.1)
    (hfloat : m.EachFloat (ReadsBack number)) (hint : m.EachInt InInt64) :
    ∃ d, decodeMessage m.discriminator = some d ∧ d (encodeMessage number m) = some m := by
  cases m with
  | hello m =>
    exact ⟨_, rfl, congrArg (Option.map Message.hello) (decode_encodeHello hversion hfloat)⟩
  | generate m =>
    exact ⟨_, rfl,
      congrArg (Option.map Message.generate) (decode_encodeGenerate hversion hfloat hint)⟩
  | plan m => exact ⟨_, rfl, congrArg (Option.map Message.plan) (decode_encodePlan hversion hint)⟩
  | chunk m =>
    exact ⟨_, rfl, congrArg (Option.map Message.chunk) (decode_encodeChunk hversion hfloat)⟩
  | complete m =>
    exact ⟨_, rfl, congrArg (Option.map Message.complete) (decode_encodeComplete hversion hint)⟩
  | error m => exact ⟨_, rfl, congrArg (Option.map Message.error) (decode_encodeError hversion)⟩
  | cancel m =>
    exact ⟨_, rfl, congrArg (Option.map Message.cancel) (decode_encodeCancel hversion)⟩

/-- **A message is decoded as it was encoded.** -/
theorem decode_encodeMessage (explain : Option String → Json → String) {m : Message}
    (hheader : m.header = (Version, m.discriminator)) (hfloat : m.EachFloat (ReadsBack number))
    (hint : m.EachInt InInt64) :
    decode explain (.ok (encodeMessage number m)) = .ok m := by
  have hversion : InInt64 m.header.1 := by
    rw [hheader]
    exact inInt64_version
  have hhead : decodeHead (encodeMessage number m) = _ := decodeHead_encodeMessage hversion
  obtain ⟨d, hd, hmsg⟩ := decodeMessage_encodeMessage hversion hfloat hint
  rw [hheader] at hhead
  simp only [decode, hhead, hd, hmsg, ne_eq, not_true, if_false]

/-- A `hello` whose manifest is written entry by entry, in any order. -/
theorem decode_helloEntries (explain : Option String → Json → String)
    {entries : List (String × ManifestEntry)}
    (h : ∀ p ∈ entries, ReadsBack number p.2.footprintRadius) :
    decode explain (.ok (encodeEnvelope Version TypeHello
      [("manifest", .obj (entries.map fun p => (p.1, encodeManifestEntry number p.2)))])) =
      .ok (.hello ⟨Version, TypeHello, addEntries (.make ∅) entries⟩) := by
  generalize hv : encodeEnvelope Version TypeHello
    [("manifest", .obj (entries.map fun p => (p.1, encodeManifestEntry number p.2)))] = v
  have hhead : decodeHead v = some ⟨TypeHello, some Version⟩ := by
    rw [← hv]
    exact decodeHead_encodeEnvelope inInt64_version ["manifest"] rfl (by decide +kernel)
  have hmanifest : decodeMap default (decodeStruct true manifestEntryFields)
      (.obj (entries.map fun p => (p.1, encodeManifestEntry number p.2))) .nil =
      some (addEntries (.make ∅) entries) :=
    decodeEntries_map (fun p hp => decodes_manifestEntry (h p hp)) _
  have hstruct : decodeStruct true helloFields v default =
      some ⟨Version, TypeHello, addEntries (.make ∅) entries⟩ := by
    rw [← hv]
    show decodeFields true helloFields _ default = _
    rw [decodeFields_cons rfl (decodes_int64 inInt64_version _),
      decodeFields_cons rfl (decodes_string _ _), decodeFields_cons rfl hmanifest]
    rfl
  have hmessage : decodeMessage TypeHello =
      some fun v => (decodeStruct true helloFields v default).map Message.hello := rfl
  simp only [decode, hhead, hmessage, hstruct, Option.map_some, ne_eq, not_true, if_false]

end RoundTrips

end AetherForge
