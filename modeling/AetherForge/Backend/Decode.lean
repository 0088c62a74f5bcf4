import AetherForge.Library.GoJson
import AetherForge.Backend.Protocol

/-!
# Decoding a wire message

`Decode` of `protocol.go`.  A frame is decoded twice: into the type and the version, whatever
else it holds, and then, with unknown fields disallowed, into the struct of its type.

* `decode_mismatch_iff` — the frames that fail with a version mismatch;
* `decode_envelope` — a decoded message carries this version and the type it was decoded by.
-/

namespace AetherForge

open Go GoJson

/-! ### Schemas -/

def vec2Fields : List (StructField Vec2) :=
  [.of "x" decodeFloat64 (·.x) fun p x => { p with x := x },
    .of "y" decodeFloat64 (·.y) fun p y => { p with y := y }]

def decodeVec2 : Decoder Vec2 := decodeStruct true vec2Fields

def boundsFields : List (StructField Bounds) :=
  [.of "min" decodeVec2 (·.min) fun b p => { b with min := p },
    .of "max" decodeVec2 (·.max) fun b p => { b with max := p }]

def transformFields : List (StructField Transform) :=
  [.of "location" decodeVec2 (·.location) fun t p => { t with location := p },
    .of "yaw" decodeFloat64 (·.yaw) fun t q => { t with yaw := q },
    .of "scale" decodeFloat64 (·.scale) fun t q => { t with scale := q }]

def assetEntryFields : List (StructField AssetEntry) :=
  [.of "category" decodeString (·.category) fun a c => { a with category := c },
    .of "transform" (decodeStruct true transformFields) (·.transform)
      fun a t => { a with transform := t },
    .of "ground_snap" decodeBool (·.groundSnap) fun a b => { a with groundSnap := b },
    .of "tags" (decodeSlice "" decodeString) (·.tags) fun a ts => { a with tags := ts }]

def manifestEntryFields : List (StructField ManifestEntry) :=
  [.of "footprint_radius" decodeFloat64 (·.footprintRadius)
      fun e q => { e with footprintRadius := q },
    .of "ground_snap" decodeBool (·.groundSnap) fun e b => { e with groundSnap := b },
    .of "instanceable" decodeBool (·.instanceable) fun e b => { e with instanceable := b },
    .of "display_name" decodeString (·.displayName) fun e s => { e with displayName := s }]

def statsFields : List (StructField Stats) :=
  [.of "assets" decodeInt64 (·.assets) fun st n => { st with assets := n },
    .of "elapsed_ms" decodeInt64 (·.elapsedMs) fun st n => { st with elapsedMs := n },
    .of "llm_ms" decodeInt64 (·.llmMs) fun st n => { st with llmMs := n }]

/-- The two fields that every message struct begins with, as accessors. -/
structure Envelope (S : Type) where
  version : S → ℤ
  setVersion : S → ℤ → S
  type : S → String
  setType : S → String → S

def Envelope.fields {S : Type} (env : Envelope S) : List (StructField S) :=
  [.of "protocol_version" decodeInt64 env.version env.setVersion,
    .of "type" decodeString env.type env.setType]

def helloEnvelope : Envelope Hello :=
  ⟨(·.protocolVersion), fun m v => { m with protocolVersion := v },
    (·.type), fun m t => { m with type := t }⟩

def helloFields : List (StructField Hello) :=
  helloEnvelope.fields ++
    [.of "manifest" (decodeMap default (decodeStruct true manifestEntryFields)) (·.manifest)
      fun m es => { m with manifest := es }]

def generateEnvelope : Envelope Generate :=
  ⟨(·.protocolVersion), fun m v => { m with protocolVersion := v },
    (·.type), fun m t => { m with type := t }⟩

def generateFields : List (StructField Generate) :=
  generateEnvelope.fields ++
    [.of "generation_id" decodeString (·.generationId) fun m s => { m with generationId := s },
      .of "prompt" decodeString (·.prompt) fun m s => { m with prompt := s },
      .of "seed" (decodePointer 0 decodeInt64) (·.seed) fun m n => { m with seed := n },
      .of "bounds" (decodeStruct true boundsFields) (·.bounds) fun m b => { m with bounds := b }]

def planEnvelope : Envelope Plan :=
  ⟨(·.protocolVersion), fun m v => { m with protocolVersion := v },
    (·.type), fun m t => { m with type := t }⟩

def planFields : List (StructField Plan) :=
  planEnvelope.fields ++
    [.of "generation_id" decodeString (·.generationId) fun m s => { m with generationId := s },
      .of "seed" decodeInt64 (·.seed) fun m n => { m with seed := n },
      .of "total_assets" decodeInt64 (·.totalAssets) fun m n => { m with totalAssets := n },
      .of "categories" (decodeMap 0 decodeInt64) (·.categories)
        fun m cs => { m with categories := cs }]

def chunkEnvelope : Envelope Chunk :=
  ⟨(·.protocolVersion), fun m v => { m with protocolVersion := v },
    (·.type), fun m t => { m with type := t }⟩

def chunkFields : List (StructField Chunk) :=
  chunkEnvelope.fields ++
    [.of "generation_id" decodeString (·.generationId) fun m s => { m with generationId := s },
      .of "assets" (decodeSlice default (decodeStruct true assetEntryFields)) (·.assets)
        fun m as => { m with assets := as }]

def completeEnvelope : Envelope Complete :=
  ⟨(·.protocolVersion), fun m v => { m with protocolVersion := v },
    (·.type), fun m t => { m with type := t }⟩

def completeFields : List (StructField Complete) :=
  completeEnvelope.fields ++
    [.of "generation_id" decodeString (·.generationId) fun m s => { m with generationId := s },
      .of "stats" (decodeStruct true statsFields) (·.stats) fun m st => { m with stats := st }]

def errorEnvelope : Envelope Error :=
  ⟨(·.protocolVersion), fun m v => { m with protocolVersion := v },
    (·.type), fun m t => { m with type := t }⟩

def errorFields : List (StructField Error) :=
  errorEnvelope.fields ++
    [.of "generation_id" decodeString (·.generationId) fun m s => { m with generationId := s },
      .of "code" decodeString (·.code) fun m s => { m with code := s },
      .of "message" decodeString (·.message) fun m s => { m with message := s },
      .of "recoverable" decodeBool (·.recoverable) fun m b => { m with recoverable := b }]

def cancelEnvelope : Envelope Cancel :=
  ⟨(·.protocolVersion), fun m v => { m with protocolVersion := v },
    (·.type), fun m t => { m with type := t }⟩

def cancelFields : List (StructField Cancel) :=
  cancelEnvelope.fields ++
    [.of "generation_id" decodeString (·.generationId) fun m s => { m with generationId := s }]

/-! ### Decode -/

/-- A frame: what the JSON parser says against it, or the value it holds. -/
abbrev Frame := Except String Json

/-- The error of `Decode`: its text, and whether it wraps `ErrVersionMismatch`. -/
structure DecodeError where
  text : String
  versionMismatch : Bool

/-- The struct of the first pass. -/
structure Head where
  type : String
  protocolVersion : Option ℤ

def headFields : List (StructField Head) :=
  [.of "type" decodeString (·.type) fun h t => { h with type := t },
    .of "protocol_version" (decodePointer 0 decodeInt64) (·.protocolVersion)
      fun h v => { h with protocolVersion := v }]

def decodeHead (v : Json) : Option Head := decodeStruct false headFields v ⟨"", none⟩

/-- The second pass, into the struct of a type. -/
def decodeMessage (type : String) : Option (Json → Option Message) :=
  if type = TypeHello then
    some fun v => (decodeStruct true helloFields v default).map .hello
  else if type = TypeGenerate then
    some fun v => (decodeStruct true generateFields v default).map .generate
  else if type = TypePlan then
    some fun v => (decodeStruct true planFields v default).map .plan
  else if type = TypeChunk then
    some fun v => (decodeStruct true chunkFields v default).map .chunk
  else if type = TypeComplete then
    some fun v => (decodeStruct true completeFields v default).map .complete
  else if type = TypeError then
    some fun v => (decodeStruct true errorFields v default).map .error
  else if type = TypeCancel then
    some fun v => (decodeStruct true cancelFields v default).map .cancel
  else none

/-- `Decode`; `explain` is what the JSON package says about a value that does not fit the head,
or the struct of a type. -/
def decode (explain : Option String → Json → String) (frame : Frame) :
    Except DecodeError Message :=
  match frame with
  | .error text => .error ⟨"protocol: invalid JSON: " ++ text, false⟩
  | .ok v =>
    match decodeHead v with
    | none => .error ⟨"protocol: invalid JSON: " ++ explain none v, false⟩
    | some head =>
      match head.protocolVersion with
      | none => .error ⟨"protocol: missing required field \"protocol_version\"", false⟩
      | some n =>
        if n ≠ Version then
          .error ⟨"protocol: protocol version mismatch: server speaks v" ++ toString Version ++
            ", message carries v" ++ toString n, true⟩
        else
          match decodeMessage head.type with
          | none => .error ⟨"protocol: unknown message type " ++ quote head.type, false⟩
          | some d =>
            match d v with
            | none =>
              .error ⟨"protocol: malformed " ++ quote head.type ++ " message: " ++
                explain (some head.type) v, false⟩
            | some msg => .ok msg

/-! ### The first pass -/

theorem headFields_unambiguous : Unambiguous headFields := by decide +kernel

/-- The head is decoded from the values given to its two names, each on its own. -/
theorem decodeFields_head (members : List (String × Json)) (t : String) (p : Option ℤ) :
    decodeFields false headFields members ⟨t, p⟩ =
      (decodeAll decodeString (valuesOf "type" members) t).bind fun t' =>
        (decodeAll (decodePointer 0 decodeInt64) (valuesOf "protocol_version" members) p).map
          (Head.mk t') := by
  induction members generalizing t p with
  | nil => rfl
  | cons m rest ih =>
    obtain ⟨k, v⟩ := m
    have hnames : foldName "type" ≠ foldName "protocol_version" := by decide +kernel
    by_cases htype : foldName k = foldName "type"
    · have hversion : foldName k ≠ foldName "protocol_version" := htype ▸ hnames
      have hf := fieldNamed_of_mem headFields_unambiguous List.mem_cons_self htype
      rw [valuesOf_cons_of_eq htype, valuesOf_cons_of_ne hversion]
      simp only [decodeFields, hf, StructField.of, decodeAll]
      cases decodeString v t with
      | none => rfl
      | some t' => exact ih t' p
    · rw [valuesOf_cons_of_ne htype]
      by_cases hversion : foldName k = foldName "protocol_version"
      · have hf := fieldNamed_of_mem headFields_unambiguous
          (List.mem_cons_of_mem _ List.mem_cons_self) hversion
        rw [valuesOf_cons_of_eq hversion]
        simp only [decodeFields, hf, StructField.of, decodeAll]
        cases decodePointer 0 decodeInt64 v p with
        | none => simp
        | some p' => exact ih t p'
      · rw [valuesOf_cons_of_ne hversion]
        have hf : fieldNamed headFields k = none := by
          cases hfound : fieldNamed headFields k with
          | none => rfl
          | some f =>
            obtain ⟨hmem, hk⟩ := fieldNamed_some hfound
            simp only [headFields, List.mem_cons, List.not_mem_nil, or_false] at hmem
            rcases hmem with rfl | rfl
            · exact absurd hk htype
            · exact absurd hk hversion
        simp only [decodeFields, hf, Bool.false_eq_true, if_false]
        exact ih t p

theorem decodeAll_string_iff (vs : List Json) (t : String) :
    (∃ t', decodeAll decodeString vs t = some t') ↔ ∀ v ∈ vs, v = .null ∨ ∃ s, v = .str s := by
  induction vs generalizing t with
  | nil => simp [decodeAll]
  | cons v vs ih =>
    rw [List.forall_mem_cons]
    cases v with
    | null => simpa [decodeAll, decodeString] using ih t
    | str s => simpa [decodeAll, decodeString] using ih s
    | _ => simp [decodeAll, decodeString]

/-- A value that decodes into a `*int`. -/
def IsIntPointer (v : Json) : Prop := v = .null ∨ ∃ m, v = .int m ∧ InInt64 m

theorem decodeAll_intPointer_iff (vs : List Json) (p : Option ℤ) (n : ℤ) :
    decodeAll (decodePointer 0 decodeInt64) vs p = some (some n) ↔
      (∀ v ∈ vs, IsIntPointer v) ∧ (vs.getLast? = some (.int n) ∨ (vs = [] ∧ p = some n)) := by
  induction vs generalizing p with
  | nil => simp [decodeAll]
  | cons v vs ih =>
    rw [List.forall_mem_cons]
    cases v with
    | null =>
      have hnull : IsIntPointer .null := .inl rfl
      rw [decodeAll, decodePointer, Option.bind_some, ih]
      cases vs with
      | nil => simp
      | cons w ws => simp [hnull, List.getLast?_cons_cons]
    | int m =>
      by_cases hm : InInt64 m
      · have hint : IsIntPointer (.int m) := .inr ⟨m, rfl, hm⟩
        simp only [decodeAll, decodePointer, decodeInt64, if_pos hm, Option.map_some,
          Option.bind_some]
        rw [ih]
        cases vs with
        | nil => simp [hint]
        | cons w ws => simp [hint, List.getLast?_cons_cons]
      · have hint : ¬IsIntPointer (.int m) := by
          rintro (h | ⟨_, h, hm'⟩)
          · cases h
          · cases h
            exact hm hm'
        simp [decodeAll, decodePointer, decodeInt64, if_neg hm, hint]
    | _ => simp [decodeAll, decodePointer, decodeInt64, IsIntPointer]

/-- The object's `type`, if present, is a string or null, and its `protocol_version` decodes to
the integer `n`. -/
structure CarriesVersion (members : List (String × Json)) (n : ℤ) : Prop where
  type : ∀ v ∈ valuesOf "type" members, v = .null ∨ ∃ s, v = .str s
  version : ∀ v ∈ valuesOf "protocol_version" members, IsIntPointer v
  last : (valuesOf "protocol_version" members).getLast? = some (.int n)

theorem decodeHead_iff (v : Json) (n : ℤ) :
    (∃ t, decodeHead v = some ⟨t, some n⟩) ↔
      ∃ members, v = .obj members ∧ CarriesVersion members n := by
  cases v with
  | obj members =>
    have hpass : decodeHead (.obj members) = _ := decodeFields_head members "" none
    rw [hpass]
    constructor
    · rintro ⟨t, h⟩
      obtain ⟨t', ht, hrest⟩ := Option.bind_eq_some_iff.mp h
      obtain ⟨p, hp, heq⟩ := Option.map_eq_some_iff.mp hrest
      cases heq
      obtain ⟨hversion, hlast⟩ := (decodeAll_intPointer_iff _ none n).mp hp
      refine ⟨members, rfl, (decodeAll_string_iff _ "").mp ⟨_, ht⟩, hversion, ?_⟩
      exact hlast.resolve_right fun hnone => by cases hnone.2
    · rintro ⟨_, heq, h⟩
      cases heq
      obtain ⟨t, ht⟩ := (decodeAll_string_iff _ "").mpr h.type
      have hp := (decodeAll_intPointer_iff _ none n).mpr ⟨h.version, .inl h.last⟩
      exact ⟨t, by rw [ht, hp]; rfl⟩
  | _ => simp [decodeHead, decodeStruct]

/-- **Decode, backwards**: an error that is no mismatch, a mismatch, or a message that both passes
accept. -/
theorem decode_cases (explain : Option String → Json → String) (frame : Frame) :
    (∃ text, decode explain frame = .error ⟨text, false⟩) ∨
    (∃ v t n, frame = .ok v ∧ decodeHead v = some ⟨t, some n⟩ ∧ n ≠ Version ∧
      decode explain frame = .error ⟨"protocol: protocol version mismatch: server speaks v" ++
        toString Version ++ ", message carries v" ++ toString n, true⟩) ∨
    ∃ v t d msg, frame = .ok v ∧ decodeHead v = some ⟨t, some Version⟩ ∧
      decodeMessage t = some d ∧ d v = some msg ∧ decode explain frame = .ok msg := by
  cases frame with
  | error text => exact .inl ⟨_, rfl⟩
  | ok v =>
    cases hhead : decodeHead v with
    | none => exact .inl ⟨_, by simp only [decode, hhead]; rfl⟩
    | some head =>
      obtain ⟨t, p⟩ := head
      cases p with
      | none => exact .inl ⟨_, by simp only [decode, hhead]; rfl⟩
      | some n =>
        by_cases hn : n = Version
        · subst hn
          cases hd : decodeMessage t with
          | none => exact .inl ⟨_, by simp only [decode, hhead, not_true, if_false, hd, ne_eq]; rfl⟩
          | some d =>
            cases hmsg : d v with
            | none =>
              exact .inl ⟨_, by simp only [decode, hhead, not_true, if_false, hd, hmsg, ne_eq]; rfl⟩
            | some msg =>
              refine .inr (.inr ⟨v, t, d, msg, rfl, hhead, hd, hmsg, ?_⟩)
              simp only [decode, hhead, not_true, if_false, hd, hmsg, ne_eq]
        · refine .inr (.inl ⟨v, t, n, rfl, hhead, hn, ?_⟩)
          simp only [decode, hhead, if_pos hn, ne_eq]

/-- The frame is an object of another version. -/
def Mismatched (frame : Frame) : Prop :=
  ∃ members n, frame = .ok (.obj members) ∧ CarriesVersion members n ∧ n ≠ Version

/-- **The frames that fail with a version mismatch.** -/
theorem decode_mismatch_iff (explain : Option String → Json → String) (frame : Frame) :
    (∃ err, decode explain frame = .error err ∧ err.versionMismatch = true) ↔
      Mismatched frame := by
  constructor
  · rintro ⟨err, h, hmismatch⟩
    rcases decode_cases explain frame with ⟨text, hd⟩ | ⟨v, t, n, rfl, hhead, hne, hd⟩ |
      ⟨_, _, _, _, _, _, _, _, hd⟩
    · rw [hd] at h
      cases h
      cases hmismatch
    · obtain ⟨members, rfl, hcarries⟩ := (decodeHead_iff v n).mp ⟨t, hhead⟩
      exact ⟨members, n, rfl, hcarries, hne⟩
    · rw [hd] at h
      cases h
  · rintro ⟨members, n, rfl, hcarries, hne⟩
    obtain ⟨t, hhead⟩ := (decodeHead_iff _ n).mpr ⟨members, rfl, hcarries⟩
    have hdecode : decode explain (.ok (.obj members)) =
        .error ⟨"protocol: protocol version mismatch: server speaks v" ++ toString Version ++
          ", message carries v" ++ toString n, true⟩ := by
      simp only [decode, hhead, if_pos hne]
    exact ⟨_, hdecode, rfl⟩

/-! ### The second pass -/

/-- The fields after the envelope do not touch it, and no two names are alike. -/
structure Envelope.Heads {S : Type} (env : Envelope S) (rest : List (StructField S)) : Prop where
  version_set : ∀ s n, env.version (env.setVersion s n) = n
  type_set : ∀ s t, env.type (env.setType s t) = t
  version_setType : ∀ s t, env.version (env.setType s t) = env.version s
  type_setVersion : ∀ s n, env.type (env.setVersion s n) = env.type s
  unambiguous : Unambiguous (env.fields ++ rest)
  frame : ∀ f ∈ rest, ∀ v s t, f.decode v s = some t →
    env.version t = env.version s ∧ env.type t = env.type s

theorem Envelope.Heads.decoded {S : Type} {env : Envelope S} {rest : List (StructField S)}
    (h : env.Heads rest) {members : List (String × Json)} {s t : S}
    (hd : decodeStruct true (env.fields ++ rest) (.obj members) s = some t) :
    decodeAll decodeInt64 (valuesOf "protocol_version" members) (env.version s) =
        some (env.version t) ∧
      decodeAll decodeString (valuesOf "type" members) (env.type s) = some (env.type t) := by
  have hversion : StructField.of "protocol_version" decodeInt64 env.version env.setVersion ∈
      env.fields ++ rest := List.mem_cons_self
  have htype : StructField.of "type" decodeString env.type env.setType ∈ env.fields ++ rest :=
    List.mem_cons_of_mem _ List.mem_cons_self
  constructor
  · refine decodeFields_view h.unambiguous hversion h.version_set ?_ hd
    intro f hf hne
    rcases List.mem_append.mp hf with hf | hf
    · rcases List.mem_cons.mp hf with rfl | hf
      · exact absurd rfl hne
      · obtain rfl := List.mem_singleton.mp hf
        exact StructField.of_frame h.version_setType
    · exact fun v s t hd => (h.frame f hf v s t hd).1
  · refine decodeFields_view h.unambiguous htype h.type_set ?_ hd
    intro f hf hne
    rcases List.mem_append.mp hf with hf | hf
    · rcases List.mem_cons.mp hf with rfl | hf
      · exact StructField.of_frame h.type_setVersion
      · obtain rfl := List.mem_singleton.mp hf
        exact absurd rfl hne
    · exact fun v s t hd => (h.frame f hf v s t hd).2

/-- The last value given to a name decides what an integer is. -/
theorem decodeAll_int64_last {vs : List Json} {a m n : ℤ} (h : decodeAll decodeInt64 vs a = some m)
    (hlast : vs.getLast? = some (.int n)) : m = n := by
  induction vs generalizing a with
  | nil => cases hlast
  | cons v vs ih =>
    obtain ⟨a', hv, hrest⟩ := Option.bind_eq_some_iff.mp h
    cases vs with
    | nil =>
      cases hlast
      cases hrest
      simp only [decodeInt64] at hv
      split at hv
      · cases hv
        rfl
      · cases hv
    | cons w ws => exact ih hrest (by rwa [List.getLast?_cons_cons] at hlast)

/-- What both passes make of the two leading fields. -/
theorem Envelope.Heads.agrees {S : Type} {env : Envelope S} {rest : List (StructField S)}
    (h : env.Heads rest) {members : List (String × Json)} {n : ℤ} {type : String}
    (hcarries : CarriesVersion members n)
    (htype : decodeAll decodeString (valuesOf "type" members) "" = some type) {s t : S}
    (hs : env.type s = "")
    (hd : decodeStruct true (env.fields ++ rest) (.obj members) s = some t) :
    env.version t = n ∧ env.type t = type := by
  obtain ⟨hv, ht⟩ := h.decoded hd
  rw [hs, htype] at ht
  exact ⟨decodeAll_int64_last hv hcarries.last, (Option.some.inj ht).symm⟩

/-- The `protocol_version` and `type` of a message. -/
def Message.header : Message → ℤ × String
  | .hello m => (m.protocolVersion, m.type)
  | .generate m => (m.protocolVersion, m.type)
  | .plan m => (m.protocolVersion, m.type)
  | .chunk m => (m.protocolVersion, m.type)
  | .complete m => (m.protocolVersion, m.type)
  | .error m => (m.protocolVersion, m.type)
  | .cancel m => (m.protocolVersion, m.type)

/-- The discriminator of a message's Go type. -/
def Message.discriminator : Message → String
  | .hello _ => TypeHello
  | .generate _ => TypeGenerate
  | .plan _ => TypePlan
  | .chunk _ => TypeChunk
  | .complete _ => TypeComplete
  | .error _ => TypeError
  | .cancel _ => TypeCancel

theorem frame_nil {S : Type} {env : Envelope S} : ∀ f ∈ ([] : List (StructField S)), ∀ v s t,
    f.decode v s = some t → env.version t = env.version s ∧ env.type t = env.type s := nofun

theorem frame_cons {S α : Type} {env : Envelope S} {name : String} {d : Decoder α} {get : S → α}
    {set : S → α → S} {rest : List (StructField S)}
    (hversion : ∀ s a, env.version (set s a) = env.version s)
    (htype : ∀ s a, env.type (set s a) = env.type s)
    (hrest : ∀ f ∈ rest, ∀ v s t, f.decode v s = some t →
      env.version t = env.version s ∧ env.type t = env.type s) :
    ∀ f ∈ StructField.of name d get set :: rest, ∀ v s t, f.decode v s = some t →
      env.version t = env.version s ∧ env.type t = env.type s := by
  refine List.forall_mem_cons.mpr ⟨fun v s t hd => ⟨?_, ?_⟩, hrest⟩
  · exact StructField.of_frame hversion v s t hd
  · exact StructField.of_frame htype v s t hd

theorem heads_hello : helloEnvelope.Heads (helloFields.drop 2) where
  version_set _ _ := rfl
  type_set _ _ := rfl
  version_setType _ _ := rfl
  type_setVersion _ _ := rfl
  unambiguous := by decide +kernel
  frame := by
    refine frame_cons (fun _ _ => rfl) (fun _ _ => rfl) ?_
    exact frame_nil

theorem heads_generate : generateEnvelope.Heads (generateFields.drop 2) where
  version_set _ _ := rfl
  type_set _ _ := rfl
  version_setType _ _ := rfl
  type_setVersion _ _ := rfl
  unambiguous := by decide +kernel
  frame := by
    iterate 4 refine frame_cons (fun _ _ => rfl) (fun _ _ => rfl) ?_
    exact frame_nil

theorem heads_plan : planEnvelope.Heads (planFields.drop 2) where
  version_set _ _ := rfl
  type_set _ _ := rfl
  version_setType _ _ := rfl
  type_setVersion _ _ := rfl
  unambiguous := by decide +kernel
  frame := by
    iterate 4 refine frame_cons (fun _ _ => rfl) (fun _ _ => rfl) ?_
    exact frame_nil

theorem heads_chunk : chunkEnvelope.Heads (chunkFields.drop 2) where
  version_set _ _ := rfl
  type_set _ _ := rfl
  version_setType _ _ := rfl
  type_setVersion _ _ := rfl
  unambiguous := by decide +kernel
  frame := by
    iterate 2 refine frame_cons (fun _ _ => rfl) (fun _ _ => rfl) ?_
    exact frame_nil

theorem heads_complete : completeEnvelope.Heads (completeFields.drop 2) where
  version_set _ _ := rfl
  type_set _ _ := rfl
  version_setType _ _ := rfl
  type_setVersion _ _ := rfl
  unambiguous := by decide +kernel
  frame := by
    iterate 2 refine frame_cons (fun _ _ => rfl) (fun _ _ => rfl) ?_
    exact frame_nil

theorem heads_error : errorEnvelope.Heads (errorFields.drop 2) where
  version_set _ _ := rfl
  type_set _ _ := rfl
  version_setType _ _ := rfl
  type_setVersion _ _ := rfl
  unambiguous := by decide +kernel
  frame := by
    iterate 4 refine frame_cons (fun _ _ => rfl) (fun _ _ => rfl) ?_
    exact frame_nil

theorem heads_cancel : cancelEnvelope.Heads (cancelFields.drop 2) where
  version_set _ _ := rfl
  type_set _ _ := rfl
  version_setType _ _ := rfl
  type_setVersion _ _ := rfl
  unambiguous := by decide +kernel
  frame := by
    refine frame_cons (fun _ _ => rfl) (fun _ _ => rfl) ?_
    exact frame_nil

/-- A message of one Go type, decoded by its struct. -/
theorem Envelope.Heads.message {S : Type} {env : Envelope S} {rest : List (StructField S)}
    (h : env.Heads rest) (ctor : S → Message) {members : List (String × Json)} {n : ℤ}
    {type : String} (hcarries : CarriesVersion members n)
    (htype : decodeAll decodeString (valuesOf "type" members) "" = some type) {s : S}
    (hs : env.type s = "") {msg : Message}
    (hheader : ∀ m, (ctor m).header = (env.version m, env.type m))
    (hdiscriminator : ∀ m, (ctor m).discriminator = type)
    (hmsg : (decodeStruct true (env.fields ++ rest) (.obj members) s).map ctor = some msg) :
    msg.header = (n, msg.discriminator) := by
  obtain ⟨m, hm, rfl⟩ := Option.map_eq_some_iff.mp hmsg
  obtain ⟨hv, ht⟩ := h.agrees hcarries htype hs hm
  rw [hheader, hdiscriminator, hv, ht]

theorem decodeMessage_agrees {members : List (String × Json)} {n : ℤ} {type : String}
    {d : Json → Option Message} {msg : Message} (hcarries : CarriesVersion members n)
    (htype : decodeAll decodeString (valuesOf "type" members) "" = some type)
    (hd : decodeMessage type = some d) (hmsg : d (.obj members) = some msg) :
    msg.header = (n, msg.discriminator) := by
  unfold decodeMessage at hd
  split at hd
  · rename_i heq
    cases hd
    exact heads_hello.message .hello hcarries htype rfl (fun _ => rfl) (fun _ => heq.symm) hmsg
  split at hd
  · rename_i heq
    cases hd
    exact heads_generate.message .generate hcarries htype rfl (fun _ => rfl)
      (fun _ => heq.symm) hmsg
  split at hd
  · rename_i heq
    cases hd
    exact heads_plan.message .plan hcarries htype rfl (fun _ => rfl) (fun _ => heq.symm) hmsg
  split at hd
  · rename_i heq
    cases hd
    exact heads_chunk.message .chunk hcarries htype rfl (fun _ => rfl) (fun _ => heq.symm) hmsg
  split at hd
  · rename_i heq
    cases hd
    exact heads_complete.message .complete hcarries htype rfl (fun _ => rfl)
      (fun _ => heq.symm) hmsg
  split at hd
  · rename_i heq
    cases hd
    exact heads_error.message .error hcarries htype rfl (fun _ => rfl) (fun _ => heq.symm) hmsg
  split at hd
  · rename_i heq
    cases hd
    exact heads_cancel.message .cancel hcarries htype rfl (fun _ => rfl) (fun _ => heq.symm) hmsg
  · cases hd

/-- **A decoded message** carries this version, and the type of its Go struct. -/
theorem decode_envelope {explain : Option String → Json → String} {frame : Frame} {msg : Message}
    (h : decode explain frame = .ok msg) : msg.header = (Version, msg.discriminator) := by
  rcases decode_cases explain frame with ⟨_, hdecode⟩ | ⟨_, _, _, _, _, _, hdecode⟩ |
    ⟨v, t, d, _, rfl, hhead, hd, hmsg, hdecode⟩ <;> rw [hdecode] at h <;> cases h
  obtain ⟨members, rfl, hcarries⟩ := (decodeHead_iff v _).mp ⟨t, hhead⟩
  have hpass : decodeHead (.obj members) = _ := decodeFields_head members "" none
  rw [hhead] at hpass
  obtain ⟨t', ht, hrest⟩ := Option.bind_eq_some_iff.mp hpass.symm
  obtain ⟨_, _, heq⟩ := Option.map_eq_some_iff.mp hrest
  cases heq
  exact decodeMessage_agrees hcarries ht hd hmsg

end AetherForge
