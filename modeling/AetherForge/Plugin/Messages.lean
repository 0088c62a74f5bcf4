import AetherForge.Plugin.Spawner

/-!
# The plugin's wire structs

The `USTRUCT`s of `AetherForgeProtocolTypes.h`, with the defaults that a field keeps when nothing
is imported into it.  A `double` is the number it holds; `int32` and `int64` are integers, and the
code that stores into them narrows.  A parsed server message is one of the four structs or the
reason why the frame is invalid, as `Type` says which of them is looked at.
-/

namespace AetherForge.Plugin

/-- `AetherForgeProtocol::Version`. -/
def Version : ℤ := 1

def Type_Hello : String := "hello"
def Type_Generate : String := "generate"
def Type_Plan : String := "plan"
def Type_Chunk : String := "chunk"
def Type_Complete : String := "complete"
def Type_Error : String := "error"
def Type_Cancel : String := "cancel"

/-! ### Client to server -/

/-- `FAetherForgeWireBounds`. -/
structure WireBounds where
  min : Vec2
  max : Vec2

/-- `FAetherForgeWireManifestEntry`. -/
structure WireManifestEntry where
  footprintRadius : ℚ := 0
  groundSnap : Bool := false
  instanceable : Bool := false
  displayName : String := ""

structure HelloMessage where
  protocolVersion : ℤ := Version
  type : String := Type_Hello
  manifest : TMap WireManifestEntry := .empty

structure CancelMessage where
  protocolVersion : ℤ := Version
  type : String := Type_Cancel
  generationId : String := ""

/-! ### Server to client -/

structure PlanMessage where
  protocolVersion : ℤ := 0
  type : String := ""
  generationId : String := ""
  seed : ℤ := 0
  totalAssets : ℤ := 0
  categories : TMap ℤ := .empty

/-- `FAetherForgeAssetEntry` before anything is imported into it. -/
def AssetEntry.default : AssetEntry := ⟨"", ⟨⟨0, 0⟩, 0, 1⟩, false, []⟩

structure ChunkMessage where
  protocolVersion : ℤ := 0
  type : String := ""
  generationId : String := ""
  assets : List AssetEntry := []

structure CompleteStats where
  assets : ℤ := 0
  elapsedMs : ℤ := 0
  llmMs : ℤ := 0

structure CompleteMessage where
  protocolVersion : ℤ := 0
  type : String := ""
  generationId : String := ""
  stats : CompleteStats := {}

structure ErrorMessage where
  protocolVersion : ℤ := 0
  type : String := ""
  generationId : String := ""
  code : String := ""
  message : String := ""
  recoverable : Bool := false

/-- `FAetherForgeServerMessage`. -/
inductive ServerMessage
  | plan (m : PlanMessage)
  | chunk (m : ChunkMessage)
  | complete (m : CompleteMessage)
  | error (m : ErrorMessage)
  | invalid (parseError : String)

end AetherForge.Plugin
