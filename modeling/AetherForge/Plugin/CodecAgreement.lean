import AetherForge.Backend.Emission
import AetherForge.Backend.Wire
import AetherForge.Plugin.Passing

/-!
# The two codecs agree

What one side writes the other reads with the same values: a `hello`, `generate` or `cancel` of the
plugin by `Decode`, and a message of a generation by `ParseServerMessage`.
-/

namespace AetherForge.Plugin

open Go GoJson Interaction StructJson

/-! ### From the server -/

/-- A message and what it is parsed as have the same type and the same values. -/
def Agrees : Message → ServerMessage → Prop
  | .plan p, .plan m => m.protocolVersion = p.protocolVersion ∧ m.type = p.type ∧
      m.generationId = p.generationId ∧ m.seed = p.seed ∧ m.totalAssets = p.totalAssets ∧
      ∀ k n, (k, n) ∈ m.categories.entries ↔ p.categories.get? k = some n
  | .chunk c, .chunk m =>
    m = ⟨c.protocolVersion, c.type, c.generationId, c.assets.elems.map AssetEntry.received⟩
  | .complete c, .complete m =>
    m = ⟨c.protocolVersion, c.type, c.generationId,
      ⟨c.stats.assets, c.stats.elapsedMs, c.stats.llmMs⟩⟩
  | .error e, .error m =>
    m = ⟨e.protocolVersion, e.type, e.generationId, e.code, e.message, e.recoverable⟩
  | _, _ => False

/-- The category keys of a message are not empty, and distinct without regard to case. -/
def KeysApart : Message → Prop
  | .plan p => (∀ k ∈ p.categories.keys, k ≠ "") ∧ Set.InjOn foldKey p.categories.keys
  | .chunk c => ∀ a ∈ c.assets.elems, a.category ≠ ""
  | _ => True

/-- The seed of a plan has at most 53 bits. -/
def SeedExact : Message → Prop
  | .plan p => |p.seed| ≤ 2 ^ 53
  | _ => True

/-- What the engine does with the frames of this server: the reader reads them as the values that
they spell, and values of the right kind are converted to what they hold. -/
structure Engine.Lawful (E : Engine) (F : NumberFormat) : Prop extends
    E.toConversions.Lawful where
  reads : ∀ m : Message, m.EachFloat F.Writes → ∃ root,
    E.deserialize (marshal F m) = .ok root ∧ .object root = read (encodeMessage F.number m)
  int32 : ∀ n : ℤ, InInt32 n → E.tryGetInt32 (.number n) = some n
  text : ∀ s, E.tryGetString (.string s) = some s

section FromServer

variable {E : Engine} {F : NumberFormat}

/-- A struct that passes is deserialized. -/
theorem strictDeserialize_eq_ok {S : Type} {c : Conversions} {ps : List (Property S)}
    {root : JsonObject} {initial s : S}
    (h : Passes (.struct c foldKey ps) (.object root) initial s) (typeName : String) :
    strictDeserialize ps initial typeName root = .ok s := by
  have himport : importProperties foldKey root ps initial = some s := h.load
  have hknown : findUnknownField (exportProperties ps s) "" root = none := (h.covers "").1
  simp only [strictDeserialize, himport, uStructToJsonObject, hknown]

theorem missingCategory_eq_none {entries : List AssetEntry} (h : ∀ a ∈ entries, a.category ≠ "")
    (index : ℕ) : missingCategory index entries = none := by
  induction entries generalizing index with
  | nil => rfl
  | cons a rest ih =>
    obtain ⟨ha, hrest⟩ := List.forall_mem_cons.mp h
    rw [missingCategory, if_neg ha]
    exact ih hrest (index + 1)

/-- A frame with the two leading members goes to the branch of its type. -/
theorem parseServerMessage_envelope (hE : E.Lawful F) {data : Bytes} {root : JsonObject}
    {type : String} {rest : List (String × Json)}
    (hdata : E.deserialize data = .ok root)
    (hnames : (("protocol_version" :: "type" :: rest.map Prod.fst).map foldKey).Nodup)
    (hroot : .object root = read (encodeEnvelope Version type rest)) :
    parseServerMessage E data = parseTyped E type root := by
  have hread : read (encodeEnvelope Version type rest) =
      .object (("protocol_version", .number Version) :: ("type", .string type) ::
        rest.map fun m => (m.1, read m.2)) := by
    have hnodup : ((("protocol_version", Json.int Version) :: ("type", Json.str type) ::
        rest).map fun m => foldKey m.1).Nodup := by
      rw [List.map_cons, List.map_cons, List.map_map] at hnames
      exact hnames
    have hversion : read (.int Version) = .number Version := read_int (by decide)
    rw [encodeEnvelope, read, ofJson_obj foldKey hnodup]
    simp only [List.map_cons, ← hversion]
    rfl
  rw [hread] at hroot
  cases hroot
  have hne : foldKey "protocol_version" ≠ foldKey "type" := by decide +kernel
  have hv : tryGetField foldKey (("protocol_version", .number Version) ::
      ("type", .string type) :: rest.map fun m => (m.1, read m.2)) "protocol_version" =
      some (.number Version) := by
    simp [tryGetField]
  have ht : tryGetField foldKey (("protocol_version", .number Version) ::
      ("type", .string type) :: rest.map fun m => (m.1, read m.2)) "type" =
      some (.string type) := by
    simp [tryGetField, hne]
  have hint : E.tryGetInt32 (.number (Version : ℤ)) = some Version := hE.int32 Version (by decide)
  simp only [parseServerMessage, hdata, hv, ht, Option.bind_some, hint, hE.text, ne_eq, not_true,
    if_false]

variable (hE : E.Lawful F) {generationId : String} {data : Bytes} {root : JsonObject}
variable (hdata : E.deserialize data = .ok root)

include hE hdata

/-- A frame whose struct is filled goes to the branch of its type, and is deserialized there. -/
theorem parse_message {S : Type} {ps : List (Property S)} {type : String}
    (rest : List (String × Json)) {initial t : S} (hps : Unambiguous foldKey ps)
    (hnames : "protocol_version" :: "type" :: rest.map Prod.fst = ps.map (·.name))
    (hfills : Fills ps (read (.int Version) :: read (.str type) :: rest.map fun m => read m.2)
      initial t)
    (hroot : .object root = read (encodeEnvelope Version type rest)) :
    parseServerMessage E data = parseTyped E type root ∧
      ∀ typeName, strictDeserialize ps initial typeName root = .ok t := by
  have hpasses : Passes (.struct E.toConversions foldKey ps) (read (.obj
      (("protocol_version", .int Version) :: ("type", .str type) :: rest))) initial t :=
    passes_struct hps hnames hfills
  rw [show read (.obj _) = .object root from hroot.symm] at hpasses
  refine ⟨parseServerMessage_envelope hE hdata ?_ hroot, strictDeserialize_eq_ok hpasses⟩
  rw [hnames, List.map_map]
  exact hps

/-- A plan is parsed with the seed that its digits are rounded to. -/
theorem parse_plan_rounded {p : Plan} (h : Emitted generationId (.plan p))
    (hid : generationId ≠ "") (hkeys : KeysApart (.plan p))
    (hroot : .object root = read (encodePlan p)) :
    ∃ received : TMap ℤ, parseServerMessage E data =
        .plan ⟨Version, TypePlan, p.generationId, E.toInt64 (Binary64.round p.seed), p.totalAssets,
          received⟩ ∧
      ∀ k n, (k, n) ∈ received.entries ↔ p.categories.get? k = some n := by
  obtain ⟨version, type, id, seed, totalAssets, categories⟩ := p
  obtain ⟨rfl, rfl, rfl, ⟨hlo, hhi⟩, hcounts⟩ := h
  replace hlo : 0 ≤ totalAssets := hlo
  have hc : E.toConversions.Lawful := hE.toLawful
  have hcounts32 : ∀ k n, categories.get? k = some n → InInt32 n := by
    intro k n hn
    have hrange := hcounts k n hn
    rw [MaxAssetsPerCategory] at hrange
    constructor <;> omega
  have hnull : ∀ n, Json.int n ≠ .null := fun n h => by cases h
  obtain ⟨received, hcategories, hentries⟩ := passes_map hc .int hkeys.1 hkeys.2 hnull
    fun k n hn => passes_int32 hc (hcounts32 k n hn) 0
  have htotal : InInt32 totalAssets := ⟨by omega, hhi⟩
  have hfills : Fills (planProperties E.toConversions)
      [read (.int Version), read (.str TypePlan), read (.str id), read (.int seed),
        read (.int totalAssets), read (encodeMap .int categories)] {}
      ⟨Version, TypePlan, id, E.toInt64 (Binary64.round seed), totalAssets, received⟩ :=
    fills_cons (passes_int32 hc (by decide) _) rfl (fills_cons (passes_string hc _ _) rfl
      (fills_cons (passes_string hc _ _) rfl (fills_cons (passes_int64_rounded hc seed _) rfl
        (fills_cons (passes_int32 hc htotal _) rfl (fills_cons hcategories rfl (fills_nil _))))))
  obtain ⟨hparse, hstrict⟩ := parse_message hE hdata
    [("generation_id", .str id), ("seed", .int seed), ("total_assets", .int totalAssets),
      ("categories", encodeMap .int categories)]
    (unambiguous_tables E.toConversions).2.2.2.2.1 rfl hfills hroot
  refine ⟨received, ?_, hentries⟩
  rw [hparse]
  show parsePlan E root = _
  simp only [parsePlan, hstrict, if_neg hid, if_neg hlo.not_gt]

theorem parse_plan {p : Plan} (h : Emitted generationId (.plan p)) (hid : generationId ≠ "")
    (hkeys : KeysApart (.plan p)) (hseed : SeedExact (.plan p))
    (hroot : .object root = read (encodePlan p)) :
    Agrees (.plan p) (parseServerMessage E data) := by
  obtain ⟨received, hparse, hentries⟩ := parse_plan_rounded hE hdata h hid hkeys hroot
  rw [hparse, toInt64_round hE.toLawful hseed]
  obtain ⟨hversion, htype, -⟩ := h
  exact ⟨hversion.symm, htype.symm, rfl, rfl, rfl, hentries⟩

theorem parse_chunk {m : AetherForge.Chunk} (h : Emitted generationId (.chunk m))
    (hid : generationId ≠ "") (hkeys : KeysApart (.chunk m))
    (hfloat : (Message.chunk m).EachFloat (ReadsBack F.number))
    (hroot : .object root = read (encodeChunk F.number m)) :
    Agrees (.chunk m) (parseServerMessage E data) := by
  obtain ⟨version, type, id, assets⟩ := m
  obtain ⟨rfl, rfl, rfl⟩ := h
  have hc : E.toConversions.Lawful := hE.toLawful
  have hassets : Passes (.array (.struct E.toConversions foldKey
      (assetEntryProperties E.toConversions)) AssetEntry.default)
      (read (encodeSlice (encodeAssetEntry F.number) assets)) []
      (assets.elems.map AssetEntry.received) :=
    passes_slice fun a ha => passes_assetEntry hc (hfloat a ha)
  have hfills : Fills (chunkProperties E.toConversions)
      [read (.int Version), read (.str TypeChunk), read (.str id),
        read (encodeSlice (encodeAssetEntry F.number) assets)] {}
      ⟨Version, TypeChunk, id, assets.elems.map AssetEntry.received⟩ :=
    fills_cons (passes_int32 hc (by decide) _) rfl (fills_cons (passes_string hc _ _) rfl
      (fills_cons (passes_string hc _ _) rfl (fills_cons hassets rfl (fills_nil _))))
  obtain ⟨hparse, hstrict⟩ := parse_message hE hdata
    [("generation_id", .str id), ("assets", encodeSlice (encodeAssetEntry F.number) assets)]
    (unambiguous_tables E.toConversions).2.2.2.2.2.1 rfl hfills hroot
  have hcategories : missingCategory 0 (assets.elems.map AssetEntry.received) = none := by
    refine missingCategory_eq_none (fun a ha => ?_) 0
    obtain ⟨b, hb, rfl⟩ := List.mem_map.mp ha
    exact hkeys b hb
  rw [hparse]
  show Agrees _ (parseChunk E root)
  simp only [parseChunk, hstrict, if_neg hid, hcategories]
  rfl

theorem parse_complete {m : AetherForge.Complete} (h : Emitted generationId (.complete m))
    (hid : generationId ≠ "") (hroot : .object root = read (encodeComplete m)) :
    Agrees (.complete m) (parseServerMessage E data) := by
  obtain ⟨version, type, id, assets, elapsedMs, llmMs⟩ := m
  obtain ⟨rfl, rfl, rfl, ⟨hlo, hhi⟩, helapsed, hllm⟩ := h
  replace hlo : 0 ≤ assets := hlo
  have hc : E.toConversions.Lawful := hE.toLawful
  have hassets : InInt32 assets := ⟨by omega, hhi⟩
  have hduration : ∀ ms, InDuration ms → |ms| ≤ 2 ^ 53 :=
    fun ms hms => le_trans hms (by decide)
  have hstats : ∀ held, Passes (.struct E.toConversions foldKey (statsProperties E.toConversions))
      (read (encodeStats ⟨assets, elapsedMs, llmMs⟩)) held ⟨assets, elapsedMs, llmMs⟩ :=
    passes_stats hc hassets (hduration _ helapsed) (hduration _ hllm)
  have hfills : Fills (completeProperties E.toConversions)
      [read (.int Version), read (.str TypeComplete), read (.str id),
        read (encodeStats ⟨assets, elapsedMs, llmMs⟩)] {}
      ⟨Version, TypeComplete, id, ⟨assets, elapsedMs, llmMs⟩⟩ :=
    fills_cons (passes_int32 hc (by decide) _) rfl (fills_cons (passes_string hc _ _) rfl
      (fills_cons (passes_string hc _ _) rfl (fills_cons (hstats _) rfl (fills_nil _))))
  obtain ⟨hparse, hstrict⟩ := parse_message hE hdata
    [("generation_id", .str id), ("stats", encodeStats ⟨assets, elapsedMs, llmMs⟩)]
    (unambiguous_tables E.toConversions).2.2.2.2.2.2.1 rfl hfills hroot
  rw [hparse]
  show Agrees _ (parseComplete E root)
  simp only [parseComplete, hstrict, if_neg hid]
  rfl

theorem parse_error {m : AetherForge.Error} (h : Emitted generationId (.error m))
    (hroot : .object root = read (encodeError m)) :
    Agrees (.error m) (parseServerMessage E data) := by
  obtain ⟨version, type, id, code, message, recoverable⟩ := m
  obtain ⟨rfl, rfl, rfl, hcode⟩ := h
  have hc : E.toConversions.Lawful := hE.toLawful
  have hfills : Fills (errorProperties E.toConversions)
      [read (.int Version), read (.str TypeError), read (.str id), read (.str code),
        read (.str message), read (.bool recoverable)] {}
      ⟨Version, TypeError, id, code, message, recoverable⟩ :=
    fills_cons (passes_int32 hc (by decide) _) rfl (fills_cons (passes_string hc _ _) rfl
      (fills_cons (passes_string hc _ _) rfl (fills_cons (passes_string hc _ _) rfl
        (fills_cons (passes_string hc _ _) rfl (fills_cons (passes_bool hc _ _) rfl
          (fills_nil _))))))
  obtain ⟨hparse, hstrict⟩ := parse_message hE hdata
    [("generation_id", .str id), ("code", .str code), ("message", .str message),
      ("recoverable", .bool recoverable)]
    (unambiguous_tables E.toConversions).2.2.2.2.2.2.2 rfl hfills hroot
  rw [hparse]
  show Agrees _ (parseError E root)
  simp only [parseError, hstrict, if_neg hcode]
  rfl

end FromServer

/-! ### To the server -/

def Vec2.sent (p : Vec2) : AetherForge.Vec2 := ⟨p.x, p.y⟩

def WireBounds.sent (b : WireBounds) : Bounds := ⟨b.min.sent, b.max.sent⟩

/-- An entry of the manifest as it is sent. -/
def WireManifestEntry.sent (e : WireManifestEntry) : ManifestEntry :=
  ⟨e.footprintRadius, e.groundSnap, e.instanceable, e.displayName⟩

/-- How the engine prints doubles: so that they read back, and whole numbers without a fraction or
an exponent. -/
structure Prints (print : ℚ → Json) : Prop where
  double : ∀ q, InFloat64 q → ReadsBack print q
  whole : ∀ n : ℤ, |n| ≤ 2 ^ 53 → print n = .int n

section ToServer

variable {c : Conversions} {print : ℚ → Json} (hprint : Prints print)

include hprint

theorem print_version : print (Version : ℤ) = .int Version := hprint.whole Version (by decide)

theorem serializeGenerate_eq (generationId prompt : String) (seed : Option ℤ)
    (bounds : WireBounds) :
    serializeGenerate c print generationId prompt seed bounds =
      encodeGenerate print ⟨Version, TypeGenerate, generationId, prompt, seed, bounds.sent⟩ := by
  have hversion := print_version hprint
  cases seed with
  | none =>
    show Json.obj (("protocol_version", print (Version : ℤ)) :: _) = _
    rw [hversion]
    rfl
  | some n =>
    show Json.obj (("protocol_version", print (Version : ℤ)) :: _) = _
    rw [hversion]
    rfl

theorem serializeCancel_eq (generationId : String) :
    serializeCancel c print generationId =
      encodeCancel ⟨Version, TypeCancel, generationId⟩ := by
  show Json.obj (("protocol_version", print (Version : ℤ)) :: _) = _
  rw [print_version hprint]
  rfl

/-- The entries of a manifest in the order of the map. -/
def wireEntries (manifest : TMap WireManifestEntry) : List (String × ManifestEntry) :=
  manifest.entries.map fun p => (p.1, p.2.sent)

theorem serializeHello_eq (hc : c.Lawful) {manifest : TMap WireManifestEntry}
    (hkeys : ∀ p ∈ manifest.entries, p.1 ≠ "") :
    serializeHello c print manifest = encodeEnvelope Version TypeHello
      [("manifest", .obj ((wireEntries manifest).map fun p =>
        (p.1, encodeManifestEntry print p.2)))] := by
  let entry : Kind WireManifestEntry := .struct c foldKey (manifestEntryProperties c)
  have hexport : (manifest.entries.map fun p => (c.exportKey p.1, entry.exportValue p.2)) =
      manifest.entries.map fun p => (p.1, entry.exportValue p.2) := by
    refine List.map_congr_left fun p hp => ?_
    rw [hc.key p.1 (hkeys p hp)]
  have hfolded : ((manifest.entries.map fun p => (p.1, entry.exportValue p.2)).map
      fun m => foldKey m.1).Nodup := by
    rw [List.map_map]
    exact manifest.distinct
  show Json.obj [("protocol_version", print (Version : ℤ)), ("type", .str TypeHello),
    ("manifest", .obj (toMembers print (FoldedMap.ofEntries (manifest.entries.map fun p =>
      (c.exportKey p.1, entry.exportValue p.2)) : TMap JsonValue).entries))] = _
  rw [print_version hprint, hexport, FoldedMap.entries_ofEntries hfolded, toMembers_eq,
    List.map_map, wireEntries, List.map_map]
  rfl

end ToServer

/-! ### Both directions -/

/-- `Decode` takes a value for a message, in whatever text it comes. -/
def DecodedAs (complain : Bytes → String) (explain : Option String → Json → String) (v : Json)
    (m : Message) : Prop :=
  decode explain (.ok v) = .ok m ∧
    ∀ data, parseText data = some v → decodeData complain explain data = .ok m

theorem decodedAs_of_decode {complain : Bytes → String} {explain : Option String → Json → String}
    {v : Json} {m : Message} (h : decode explain (.ok v) = .ok m) :
    DecodedAs complain explain v m := by
  refine ⟨h, fun data hdata => ?_⟩
  rw [decodeData_eq, frameOf, hdata]
  exact h

theorem serializeGenerate_decoded (complain : Bytes → String)
    (explain : Option String → Json → String) {c : Conversions} {print : ℚ → Json}
    (hprint : Prints print) {generationId prompt : String} {seed : Option ℤ} {bounds : WireBounds}
    (hseed : ∀ n, seed = some n → InInt64 n) (hbounds : bounds.sent.EachFloat InFloat64) :
    DecodedAs complain explain (serializeGenerate c print generationId prompt seed bounds)
      (.generate ⟨Version, TypeGenerate, generationId, prompt, seed, bounds.sent⟩) := by
  let m : Message := .generate ⟨Version, TypeGenerate, generationId, prompt, seed, bounds.sent⟩
  obtain ⟨⟨h₁, h₂⟩, h₃, h₄⟩ := hbounds
  have hfloat : m.EachFloat (ReadsBack print) :=
    ⟨⟨hprint.double _ h₁, hprint.double _ h₂⟩, hprint.double _ h₃, hprint.double _ h₄⟩
  have hdecode : decode explain (.ok (encodeMessage print m)) = .ok m :=
    decode_encodeMessage explain rfl hfloat hseed
  rw [serializeGenerate_eq hprint]
  exact decodedAs_of_decode hdecode

/-- A `hello` carries a manifest: the same keys, with the same values. -/
def Carries (hello : Hello) (manifest : TMap WireManifestEntry) : Prop :=
  hello.protocolVersion = Version ∧ hello.type = TypeHello ∧
    ∀ k e, hello.manifest.get? k = some e ↔ ∃ w, (k, w) ∈ manifest.entries ∧ w.sent = e

theorem carries_addEntries (manifest : TMap WireManifestEntry) :
    Carries ⟨Version, TypeHello, addEntries (.make ∅) (wireEntries manifest)⟩ manifest := by
  have hdistinct : ((wireEntries manifest).map Prod.fst).Nodup := by
    have hfolded := manifest.distinct
    rw [← Function.comp_def foldKey Prod.fst, ← List.map_map] at hfolded
    rw [wireEntries, List.map_map]
    exact hfolded.of_map
  refine ⟨rfl, rfl, fun k e => ⟨fun hget => ?_, ?_⟩⟩
  · by_cases hk : k ∈ (wireEntries manifest).map Prod.fst
    · obtain ⟨⟨k, e'⟩, hmem, rfl⟩ := List.mem_map.mp hk
      rw [get?_addEntries_of_mem hdistinct hmem] at hget
      cases hget
      obtain ⟨⟨k', w⟩, hw, heq⟩ := List.mem_map.mp hmem
      cases heq
      exact ⟨w, hw, rfl⟩
    · rw [get?_addEntries_of_not_mem hk] at hget
      cases hget
  · rintro ⟨w, hw, rfl⟩
    exact get?_addEntries_of_mem hdistinct (List.mem_map.mpr ⟨(k, w), hw, rfl⟩)

/-- `Decode` takes a serialized `hello` for one that carries the manifest. -/
theorem serializeHello_decoded (complain : Bytes → String)
    (explain : Option String → Json → String) {c : Conversions} (hc : c.Lawful) {print : ℚ → Json}
    (hprint : Prints print) {manifest : TMap WireManifestEntry}
    (hmanifest : ∀ p ∈ manifest.entries, p.1 ≠ "" ∧ InFloat64 p.2.footprintRadius) :
    ∃ hello, Carries hello manifest ∧
      DecodedAs complain explain (serializeHello c print manifest) (.hello hello) := by
  refine ⟨_, carries_addEntries manifest, decodedAs_of_decode ?_⟩
  rw [serializeHello_eq hprint hc fun p hp => (hmanifest p hp).1]
  refine decode_helloEntries explain fun p hp => ?_
  obtain ⟨p', hp', rfl⟩ := List.mem_map.mp hp
  exact hprint.double _ (hmanifest p' hp').2

/-- **The two codecs agree.**  `Decode` takes what the plugin serializes for the message with the
same values, and `ParseServerMessage` takes every message that a generation hands over for the
message of its type with the same values. -/
theorem codecs_agree (complain : Bytes → String) (explain : Option String → Json → String)
    {print : ℚ → Json} (hprint : Prints print) {E : Engine} {F : NumberFormat}
    (hE : E.Lawful F) :
    (∀ manifest : TMap WireManifestEntry,
      (∀ p ∈ manifest.entries, p.1 ≠ "" ∧ InFloat64 p.2.footprintRadius) →
      ∃ hello, Carries hello manifest ∧ DecodedAs complain explain
        (serializeHello E.toConversions print manifest) (.hello hello)) ∧
    (∀ (generationId prompt : String) (seed : Option ℤ) (bounds : WireBounds),
      (∀ n, seed = some n → InInt64 n) → bounds.sent.EachFloat InFloat64 →
      DecodedAs complain explain
        (serializeGenerate E.toConversions print generationId prompt seed bounds)
        (.generate ⟨Version, TypeGenerate, generationId, prompt, seed, bounds.sent⟩)) ∧
    (∀ generationId : String, DecodedAs complain explain
      (serializeCancel E.toConversions print generationId)
      (.cancel ⟨Version, TypeCancel, generationId⟩)) ∧
    ∀ (D : Draws) (o : Orchestrator), o.place = place D → ∀ (req : Generate) evs q,
      Trace (run o req) evs q → (∀ ev ∈ evs, InRange ev) → req.generationId ≠ "" →
      ∀ m ∈ sentMessages evs, m.EachFloat F.Writes → KeysApart m → SeedExact m →
        Agrees m (parseServerMessage E (marshal F m)) := by
  have hc : E.toConversions.Lawful := hE.toLawful
  refine ⟨?_, ?_, ?_, ?_⟩
  · intro manifest hmanifest
    exact serializeHello_decoded complain explain hc hprint hmanifest
  · intro generationId prompt seed bounds hseed hbounds
    exact serializeGenerate_decoded complain explain hprint hseed hbounds
  · intro generationId
    let m : Message := .cancel ⟨Version, TypeCancel, generationId⟩
    have hdecode : decode explain (.ok (encodeMessage print m)) = .ok m :=
      decode_encodeMessage explain rfl trivial trivial
    rw [serializeCancel_eq hprint]
    exact decodedAs_of_decode hdecode
  · intro D o ho req evs q ht hevs hid m hm hfloat hkeys hseed
    have hemitted : Emitted req.generationId m := run_emits o req ho evs q hevs ht m hm
    obtain ⟨root, hdata, hroot⟩ := hE.reads m hfloat
    cases m with
    | plan p => exact parse_plan hE hdata hemitted hid hkeys hseed hroot
    | chunk p =>
      have hreads : (Message.chunk p).EachFloat (ReadsBack F.number) := hfloat.imp fun _ hq => hq.1
      exact parse_chunk hE hdata hemitted hid hkeys hreads hroot
    | complete p => exact parse_complete hE hdata hemitted hid hroot
    | error p => exact parse_error hE hdata hemitted hroot
    | hello | generate | cancel => cases hemitted

/-- An engine that reads every text as the value that it spells. -/
def plainEngine : Engine where
  asNumber
    | .number q => q
    | _ => 0
  asString
    | .string s => s
    | _ => ""
  asBool
    | .boolean b => b
    | _ => false
  toInt64 q := q.num.tdiv q.den
  importText _ _ _ := none
  exportKey k := k
  deserialize data :=
    match (parseText data).map read with
    | some (.object root) => .ok root
    | _ => .error ""
  tryGetInt32
    | .number q => if q.den = 1 ∧ InInt32 q.num then some q.num else none
    | _ => none
  tryGetString
    | .string s => some s
    | _ => none

theorem plainEngine_lawful (F : NumberFormat) : plainEngine.Lawful F where
  number _ := rfl
  string _ := rfl
  boolean _ := rfl
  int64 n _ := by
    show (n : ℚ).num.tdiv (n : ℚ).den = n
    rw [Rat.num_intCast, Rat.den_intCast, Nat.cast_one, Int.tdiv_one]
  key _ _ := rfl
  reads m hm := by
    have hobj : ∃ members, encodeMessage F.number m = .obj members := by
      cases m <;> exact ⟨_, rfl⟩
    obtain ⟨members, hmembers⟩ := hobj
    refine ⟨_, ?_, by rw [hmembers]; rfl⟩
    show (match (parseText (marshal F m)).map read with
      | some (.object root) => Except.ok root
      | _ => .error "") = _
    rw [parseText_marshal hm, hmembers]
    rfl
  int32 n hn := by
    show (if (n : ℚ).den = 1 ∧ InInt32 (n : ℚ).num then some (n : ℚ).num else none) = some n
    rw [Rat.num_intCast, Rat.den_intCast, if_pos ⟨rfl, hn⟩]
  text _ := rfl

theorem prints_encodeFloat64 : Prints encodeFloat64 where
  double _ hq := decodes_float64 hq
  whole n _ := by
    rw [encodeFloat64, Rat.den_intCast, if_pos rfl, Rat.num_intCast]

/-- Every draw is three eighths. -/
def evenDraws : Draws where
  State := Unit
  newPCG _ _ := ()
  float64 _ := (⟨3 / 8, by norm_num⟩, ())
  intN _ _ hn := (⟨0, hn⟩, ())
  cos _ := 1
  sin _ := 0

def gladeRequest : Generate :=
  ⟨Version, TypeGenerate, "gen-1", "a glade", some (2 ^ 53), ⟨⟨0, 0⟩, ⟨18, 18⟩⟩⟩

def gladeRecipe : Recipe := ⟨.make [⟨"shrub", 1, 0, .nil⟩]⟩

def gladeManifest : TMap WireManifestEntry :=
  ⟨[("shrub", ⟨1, true, true, "Shrub"⟩), ("Dog", ⟨2, true, false, "Dog"⟩)], by decide +kernel⟩

/-- One known category, a seed of 53 bits and whole numbers. -/
def gladeMessage : Message → Bool
  | .plan p => p.categories.keys = {"shrub"} ∧ |p.seed| ≤ 2 ^ 53
  | .chunk m => m.assets.elems.all fun a => a.category ≠ "" ∧
      ∀ q ∈ [a.transform.location.x, a.transform.location.y, a.transform.yaw, a.transform.scale],
        InFloat64 q ∧ q.den = 1
  | .complete _ => true
  | _ => false

theorem gladeMessage_fits {m : Message} (h : gladeMessage m = true) :
    m.EachFloat halvesFormat.Writes ∧ KeysApart m ∧ SeedExact m := by
  cases m with
  | plan p =>
    obtain ⟨hkeys, hseed⟩ := of_decide_eq_true h
    refine ⟨trivial, ⟨?_, ?_⟩, hseed⟩
    · rw [hkeys]
      intro k hk
      rw [Finset.mem_singleton.mp hk]
      decide
    · rw [hkeys, Finset.coe_singleton]
      exact Set.injOn_singleton _ _
  | chunk m =>
    have hassets : ∀ a ∈ m.assets.elems, _ := fun a ha =>
      of_decide_eq_true (List.all_eq_true.mp h a ha)
    refine ⟨fun a ha => ?_, fun a ha => (hassets a ha).1, trivial⟩
    have hwrites := fun q hq =>
      halvesFormat_writes ((hassets a ha).2 q hq).1 (.inl ((hassets a ha).2 q hq).2)
    simp only [List.forall_mem_cons, List.not_mem_nil, false_implies, implies_true,
      and_true] at hwrites
    obtain ⟨hx, hy, hyaw, hscale⟩ := hwrites
    exact ⟨⟨hx, hy⟩, hyaw, hscale⟩
  | complete m => exact ⟨trivial, trivial, trivial⟩
  | _ => cases h

theorem codecs_agree_glade :
    (∃ hello, Carries hello gladeManifest ∧ DecodedAs (fun _ => "") (fun _ _ => "")
      (serializeHello plainEngine.toConversions encodeFloat64 gladeManifest) (.hello hello)) ∧
    DecodedAs (fun _ => "") (fun _ _ => "")
      (serializeGenerate plainEngine.toConversions encodeFloat64 "gen-1" "a glade"
        (some (2 ^ 63 - 1)) ⟨⟨0, 0⟩, ⟨1 / 2, 40⟩⟩)
      (.generate ⟨Version, TypeGenerate, "gen-1", "a glade", some (2 ^ 63 - 1),
        ⟨⟨0, 0⟩, ⟨1 / 2, 40⟩⟩⟩) ∧
    ∃ evs, Trace (run (.new evenDraws) gladeRequest) evs (.ret ()) ∧
      (sentMessages evs).length = 3 ∧
      ∀ m ∈ sentMessages evs,
        Agrees m (parseServerMessage plainEngine (marshal halvesFormat m)) := by
  obtain ⟨hhello, hgenerate, _, hserver⟩ := codecs_agree (fun _ => "") (fun _ _ => "")
    prints_encodeFloat64 (plainEngine_lawful halvesFormat)
  refine ⟨hhello gladeManifest (by decide +kernel), hgenerate "gen-1" "a glade" _ _ ?_ ?_, ?_⟩
  · rintro _ ⟨⟩
    decide
  · have hbounds : InFloat64 0 ∧ InFloat64 (1 / 2) ∧ InFloat64 40 := by decide +kernel
    exact ⟨⟨hbounds.1, hbounds.1⟩, hbounds.2⟩
  · let played := (play (steadyAnswers meadowManifest gladeRecipe) []
      (run (.new evenDraws) gladeRequest)).1
    have htrace : Trace (run (.new evenDraws) gladeRequest) played (.ret ()) := trace_play _ [] _
    have hlen : (sentMessages played).length = 3 := by decide +kernel
    have hfits : (sentMessages played).all gladeMessage = true := by decide +kernel
    refine ⟨played, htrace, hlen, fun m hm => ?_⟩
    obtain ⟨hfloat, hkeys, hseed⟩ := gladeMessage_fits (List.all_eq_true.mp hfits m hm)
    exact hserver evenDraws _ rfl gladeRequest played _ htrace
      (inRange_play (by decide +kernel) _ _) (by decide) m hm hfloat hkeys hseed

end AetherForge.Plugin
