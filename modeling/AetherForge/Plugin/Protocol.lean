import AetherForge.Library.JsonText
import AetherForge.Library.StructJson
import AetherForge.Plugin.Messages

/-!
# The plugin's codec

`AetherForgeProtocol.cpp`: the messages to the server are exported from their structs (a `generate`
is put together by hand), and a frame from the server is imported into the struct of its type,
which is exported again to find the fields that it does not have.

* `findUnknownField` — the path of the first field without a counterpart;
* `parseServerMessage` — a frame as a message, or why it is invalid;
* `serializeHello`, `serializeGenerate`, `serializeCancel` — messages to the server.
-/

namespace AetherForge.Plugin

open GoJson StructJson

/-! ### Reflected structs -/

section Structs

variable (c : Conversions)

def vec2Properties : List (Property Vec2) :=
  [.of "x" (.double c) Vec2.x fun p x => { p with x },
    .of "y" (.double c) Vec2.y fun p y => { p with y }]

def vec2Kind : Kind Vec2 := .struct c foldKey (vec2Properties c)

def boundsProperties : List (Property WireBounds) :=
  [.of "min" (vec2Kind c) WireBounds.min fun b min => { b with min },
    .of "max" (vec2Kind c) WireBounds.max fun b max => { b with max }]

def transformProperties : List (Property Transform) :=
  [.of "location" (vec2Kind c) Transform.location fun t location => { t with location },
    .of "yaw" (.double c) Transform.yaw fun t yaw => { t with yaw },
    .of "scale" (.double c) Transform.scale fun t scale => { t with scale }]

def assetEntryProperties : List (Property AssetEntry) :=
  [.of "category" (.string c) AssetEntry.category fun a category => { a with category },
    .of "transform" (.struct c foldKey (transformProperties c)) AssetEntry.transform
      fun a transform => { a with transform },
    .of "ground_snap" (.bool c) AssetEntry.groundSnap fun a groundSnap => { a with groundSnap },
    .of "tags" (.array (.string c) "") AssetEntry.tags fun a tags => { a with tags }]

def manifestEntryProperties : List (Property WireManifestEntry) :=
  [.of "footprint_radius" (.double c) WireManifestEntry.footprintRadius
      fun e footprintRadius => { e with footprintRadius },
    .of "ground_snap" (.bool c) WireManifestEntry.groundSnap
      fun e groundSnap => { e with groundSnap },
    .of "instanceable" (.bool c) WireManifestEntry.instanceable
      fun e instanceable => { e with instanceable },
    .of "display_name" (.string c) WireManifestEntry.displayName
      fun e displayName => { e with displayName }]

def helloProperties : List (Property HelloMessage) :=
  [.of "protocol_version" (.int32 c) HelloMessage.protocolVersion
      fun m protocolVersion => { m with protocolVersion },
    .of "type" (.string c) HelloMessage.type fun m type => { m with type },
    .of "manifest" (.map c (.struct c foldKey (manifestEntryProperties c)) {} foldKey)
      HelloMessage.manifest fun m manifest => { m with manifest }]

def cancelProperties : List (Property CancelMessage) :=
  [.of "protocol_version" (.int32 c) CancelMessage.protocolVersion
      fun m protocolVersion => { m with protocolVersion },
    .of "type" (.string c) CancelMessage.type fun m type => { m with type },
    .of "generation_id" (.string c) CancelMessage.generationId
      fun m generationId => { m with generationId }]

def planProperties : List (Property PlanMessage) :=
  [.of "protocol_version" (.int32 c) PlanMessage.protocolVersion
      fun m protocolVersion => { m with protocolVersion },
    .of "type" (.string c) PlanMessage.type fun m type => { m with type },
    .of "generation_id" (.string c) PlanMessage.generationId
      fun m generationId => { m with generationId },
    .of "seed" (.int64 c) PlanMessage.seed fun m seed => { m with seed },
    .of "total_assets" (.int32 c) PlanMessage.totalAssets
      fun m totalAssets => { m with totalAssets },
    .of "categories" (.map c (.int32 c) 0 foldKey) PlanMessage.categories
      fun m categories => { m with categories }]

def chunkProperties : List (Property ChunkMessage) :=
  [.of "protocol_version" (.int32 c) ChunkMessage.protocolVersion
      fun m protocolVersion => { m with protocolVersion },
    .of "type" (.string c) ChunkMessage.type fun m type => { m with type },
    .of "generation_id" (.string c) ChunkMessage.generationId
      fun m generationId => { m with generationId },
    .of "assets" (.array (.struct c foldKey (assetEntryProperties c)) AssetEntry.default)
      ChunkMessage.assets fun m assets => { m with assets }]

def statsProperties : List (Property CompleteStats) :=
  [.of "assets" (.int32 c) CompleteStats.assets fun st assets => { st with assets },
    .of "elapsed_ms" (.int64 c) CompleteStats.elapsedMs fun st elapsedMs => { st with elapsedMs },
    .of "llm_ms" (.int64 c) CompleteStats.llmMs fun st llmMs => { st with llmMs }]

def completeProperties : List (Property CompleteMessage) :=
  [.of "protocol_version" (.int32 c) CompleteMessage.protocolVersion
      fun m protocolVersion => { m with protocolVersion },
    .of "type" (.string c) CompleteMessage.type fun m type => { m with type },
    .of "generation_id" (.string c) CompleteMessage.generationId
      fun m generationId => { m with generationId },
    .of "stats" (.struct c foldKey (statsProperties c)) CompleteMessage.stats
      fun m stats => { m with stats }]

def errorProperties : List (Property ErrorMessage) :=
  [.of "protocol_version" (.int32 c) ErrorMessage.protocolVersion
      fun m protocolVersion => { m with protocolVersion },
    .of "type" (.string c) ErrorMessage.type fun m type => { m with type },
    .of "generation_id" (.string c) ErrorMessage.generationId
      fun m generationId => { m with generationId },
    .of "code" (.string c) ErrorMessage.code fun m code => { m with code },
    .of "message" (.string c) ErrorMessage.message fun m message => { m with message },
    .of "recoverable" (.bool c) ErrorMessage.recoverable
      fun m recoverable => { m with recoverable }]

end Structs

/-! ### Strict parsing -/

mutual

/-- `FindUnknownField` on the members of an object that are left. -/
def findUnknownField (known : JsonObject) (path : String) : JsonObject → Option String
  | [] => none
  | (key, value) :: rest =>
    let fieldPath := if path = "" then key else path ++ "." ++ key
    match tryGetField foldKey known key with
    | none => some fieldPath
    | some knownValue =>
      match findInValue knownValue fieldPath value with
      | some offendingPath => some offendingPath
      | none => findUnknownField known path rest
termination_by structural members => members

/-- What it does with a value whose key is known: it goes into an object that stands against an
object, and into an array that stands against an array. -/
def findInValue (knownValue : JsonValue) (fieldPath : String) : JsonValue → Option String
  | .object members =>
    match knownValue with
    | .object knownMembers => findUnknownField knownMembers fieldPath members
    | _ => none
  | .array elems =>
    match knownValue with
    | .array knownElems => findInElems knownElems fieldPath 0 elems
    | _ => none
  | _ => none
termination_by structural value => value

/-- Its loop over the elements that both arrays have: objects are looked into, other elements
are not. -/
def findInElems (knownElems : List JsonValue) (fieldPath : String) (index : ℕ) :
    List JsonValue → Option String
  | [] => none
  | elem :: elems =>
    match knownElems with
    | [] => none
    | knownElem :: knownElems =>
      match findInElem knownElem (fieldPath ++ "[" ++ toString index ++ "]") elem with
      | some offendingPath => some offendingPath
      | none => findInElems knownElems fieldPath (index + 1) elems
termination_by structural elems => elems

def findInElem (knownElem : JsonValue) (elemPath : String) : JsonValue → Option String
  | .object members =>
    match knownElem with
    | .object knownMembers => findUnknownField knownMembers elemPath members
    | _ => none
  | _ => none
termination_by structural elem => elem

end

/-- `UStructToJsonObject`: every kind of property in the tables can be exported. -/
def uStructToJsonObject {S : Type} (properties : List (Property S)) (s : S) : Option JsonObject :=
  some (exportProperties properties s)

/-- `StrictDeserialize` into a struct that holds its defaults. -/
def strictDeserialize {S : Type} (properties : List (Property S)) (initial : S) (typeName : String)
    (root : JsonObject) : Except String S :=
  match importProperties foldKey root properties initial with
  | none => .error ("Failed to deserialize '" ++ typeName ++ "' message")
  | some s =>
    match uStructToJsonObject properties s with
    | none => .error ("Failed to re-export '" ++ typeName ++ "' message for strict validation")
    | some known =>
      match findUnknownField known "" root with
      | some path => .error ("'" ++ typeName ++ "' message carries unknown/forbidden field '" ++
          path ++ "' (contract violation)")
      | none => .ok s

/-! ### ParseServerMessage -/

/-- What parsing a frame takes from the engine. -/
structure Engine extends Conversions where
  /-- `FJsonSerializer::Deserialize`: the root object, or the reader's error message. -/
  deserialize : Bytes → Except String JsonObject
  /-- `TryGetNumber` for an `int32`. -/
  tryGetInt32 : JsonValue → Option ℤ
  tryGetString : JsonValue → Option String

section Parsing

variable (E : Engine)

def parsePlan (root : JsonObject) : ServerMessage :=
  match strictDeserialize (planProperties E.toConversions) {} "plan" root with
  | .error strictError => .invalid strictError
  | .ok m =>
    if m.generationId = "" then .invalid "'plan' message missing generation_id"
    else if m.totalAssets < 0 then .invalid "'plan' message has negative total_assets"
    else .plan m

/-- The index of the first entry without a category. -/
def missingCategory : ℕ → List AssetEntry → Option ℕ
  | _, [] => none
  | index, a :: rest => if a.category = "" then some index else missingCategory (index + 1) rest

def parseChunk (root : JsonObject) : ServerMessage :=
  match strictDeserialize (chunkProperties E.toConversions) {} "chunk" root with
  | .error strictError => .invalid strictError
  | .ok m =>
    if m.generationId = "" then .invalid "'chunk' message missing generation_id"
    else
      match missingCategory 0 m.assets with
      | some index =>
        .invalid ("'chunk' asset entry " ++ toString index ++ " missing category")
      | none => .chunk m

def parseComplete (root : JsonObject) : ServerMessage :=
  match strictDeserialize (completeProperties E.toConversions) {} "complete" root with
  | .error strictError => .invalid strictError
  | .ok m =>
    if m.generationId = "" then .invalid "'complete' message missing generation_id"
    else .complete m

def parseError (root : JsonObject) : ServerMessage :=
  match strictDeserialize (errorProperties E.toConversions) {} "error" root with
  | .error strictError => .invalid strictError
  | .ok m => if m.code = "" then .invalid "'error' message missing code" else .error m

/-- The branches of `ParseServerMessage` on the type, which is compared without regard to case. -/
def parseTyped (type : String) (root : JsonObject) : ServerMessage :=
  if foldKey type = foldKey Type_Plan then parsePlan E root
  else if foldKey type = foldKey Type_Chunk then parseChunk E root
  else if foldKey type = foldKey Type_Complete then parseComplete E root
  else if foldKey type = foldKey Type_Error then parseError E root
  else .invalid ("Unknown or unexpected message type '" ++ type ++ "'")

/-- `ParseServerMessage`. -/
def parseServerMessage (data : Bytes) : ServerMessage :=
  match E.deserialize data with
  | .error errorMessage => .invalid ("Malformed JSON frame: " ++ errorMessage)
  | .ok root =>
    match (tryGetField foldKey root "protocol_version").bind E.tryGetInt32 with
    | none => .invalid "Missing required field 'protocol_version'"
    | some protocolVersion =>
      if protocolVersion ≠ Version then
        .invalid ("Unsupported protocol_version " ++ toString protocolVersion ++ " (expected " ++
          toString Version ++ ")")
      else
        match (tryGetField foldKey root "type").bind E.tryGetString with
        | none => .invalid "Missing required field 'type'"
        | some type => parseTyped E type root

/-- A message of a generation names it. -/
def ServerMessage.NamesGeneration : ServerMessage → Prop
  | .plan m => m.generationId ≠ ""
  | .chunk m => m.generationId ≠ ""
  | .complete m => m.generationId ≠ ""
  | _ => True

theorem parsePlan_names (root : JsonObject) : (parsePlan E root).NamesGeneration := by
  unfold parsePlan
  split
  · trivial
  · split
    · trivial
    · split
      · trivial
      · assumption

theorem parseChunk_names (root : JsonObject) : (parseChunk E root).NamesGeneration := by
  unfold parseChunk
  split
  · trivial
  · split
    · trivial
    · split
      · trivial
      · assumption

theorem parseComplete_names (root : JsonObject) : (parseComplete E root).NamesGeneration := by
  unfold parseComplete
  split
  · trivial
  · split
    · trivial
    · assumption

theorem parseError_names (root : JsonObject) : (parseError E root).NamesGeneration := by
  unfold parseError
  split
  · trivial
  · split <;> trivial

theorem parseTyped_names (type : String) (root : JsonObject) :
    (parseTyped E type root).NamesGeneration := by
  unfold parseTyped
  split
  · exact parsePlan_names E root
  · split
    · exact parseChunk_names E root
    · split
      · exact parseComplete_names E root
      · split
        · exact parseError_names E root
        · trivial

/-- **A frame names its generation**, or is invalid. -/
theorem parseServerMessage_names (data : Bytes) : (parseServerMessage E data).NamesGeneration := by
  unfold parseServerMessage
  split
  · trivial
  · split
    · trivial
    · split
      · trivial
      · split
        · trivial
        · exact parseTyped_names E _ _

end Parsing

/-! ### Messages to the server -/

section Serialize

variable (c : Conversions) (print : ℚ → Json)

/-- `SerializeHello`. -/
def serializeHello (manifest : TMap WireManifestEntry) : Json :=
  toJson print (.object (exportProperties (helloProperties c) { manifest }))

/-- `SerializeGenerate`: put together by hand, so that an unset seed is left out, and a seed that
is set keeps its digits. -/
def serializeGenerate (generationId prompt : String) (seed : Option ℤ) (bounds : WireBounds) :
    Json :=
  toJson print (.object
    ([("protocol_version", .number Version), ("type", .string Type_Generate),
      ("generation_id", .string generationId), ("prompt", .string prompt)] ++
      (seed.toList.map fun n => ("seed", .numberString n)) ++
      [("bounds", .object (exportProperties (boundsProperties c) bounds))]))

/-- `SerializeCancel`. -/
def serializeCancel (generationId : String) : Json :=
  toJson print (.object (exportProperties (cancelProperties c) { generationId }))

end Serialize

/-! ### Known fields -/

/-- Every field of a value has a counterpart, wherever the value stands. -/
def Covers (knownValue value : JsonValue) : Prop :=
  ∀ path, findInValue knownValue path value = none ∧ findInElem knownValue path value = none

/-- **No unknown field** in an object each of whose members has a counterpart that covers it. -/
theorem findUnknownField_eq_none {known members : JsonObject}
    (h : ∀ m ∈ members, ∃ knownValue, tryGetField foldKey known m.1 = some knownValue ∧
      Covers knownValue m.2) (path : String) : findUnknownField known path members = none := by
  induction members with
  | nil => rfl
  | cons m rest ih =>
    obtain ⟨key, value⟩ := m
    obtain ⟨⟨knownValue, hfield, hcovers⟩, hrest⟩ := List.forall_mem_cons.mp h
    simp only [findUnknownField, hfield, (hcovers _).1]
    exact ih hrest

theorem covers_object {known members : JsonObject}
    (h : ∀ m ∈ members, ∃ knownValue, tryGetField foldKey known m.1 = some knownValue ∧
      Covers knownValue m.2) : Covers (.object known) (.object members) :=
  fun path => ⟨findUnknownField_eq_none h path, findUnknownField_eq_none h path⟩

theorem covers_array {knownElems elems : List JsonValue}
    (h : List.Forall₂ Covers knownElems elems) : Covers (.array knownElems) (.array elems) := by
  have hloop : ∀ path index, findInElems knownElems path index elems = none := by
    intro path
    induction h with
    | nil =>
      intro index
      rfl
    | cons hcovers _ ih =>
      intro index
      simp only [findInElems, (hcovers _).2]
      exact ih (index + 1)
  exact fun path => ⟨hloop path 0, rfl⟩

/-- A value without parts is covered by anything. -/
def Scalar : JsonValue → Prop
  | .object _ => False
  | .array _ => False
  | _ => True

theorem covers_scalar (knownValue : JsonValue) {value : JsonValue} (h : Scalar value) :
    Covers knownValue value := by
  intro path
  cases value with
  | object members => cases h
  | array elems => cases h
  | _ => exact ⟨rfl, rfl⟩

end AetherForge.Plugin
