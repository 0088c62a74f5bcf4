import AetherForge.Plugin.Protocol

/-!
# The editor module

`FAetherForgeEditorModule`, as far as it follows generations: it mints the id of a generation,
opens it in the spawner, sends the request, and hands the spawner the chunks of the generation whose
id it holds.  A frame arrives as bytes, and goes to the handler of what it is parsed as.

The sidecar, the connection attempts, the menus and the log are left out; what the client and the
engine answer comes with the call.
-/

namespace AetherForge.Plugin

open GoJson Operation StructJson

/-! ### The manifest -/

/-- What `GetOrLoadManifest` finds: the entries of the manifest that the module holds, and of the
data asset that `LoadObject` returns. -/
structure ManifestAnswers where
  held : Option (TMap ManifestAssetEntry)
  loaded : Option (TMap ManifestAssetEntry)

/-- `GetOrLoadManifest`: the last resort is an empty transient manifest. -/
def getOrLoadManifest (ans : ManifestAnswers) : TMap ManifestAssetEntry :=
  match ans.held with
  | some entries => entries
  | none =>
    match ans.loaded with
    | some entries => entries
    | none => .empty

/-- The loop body of `BuildWireManifest`. -/
def ManifestAssetEntry.wire (e : ManifestAssetEntry) : WireManifestEntry :=
  ⟨e.footprintRadius, e.groundSnap, e.instanceable, e.displayName⟩

/-- `BuildWireManifest`: the keys of a manifest are distinct, so that adding the entries one by one
gives a map over the same keys. -/
def buildWireManifest (entries : TMap ManifestAssetEntry) : TMap WireManifestEntry :=
  entries.mapValues ManifestAssetEntry.wire

/-! ### State -/

structure EditorModule where
  activeGenerationId : String
  spawner : Spawner

def EditorModule.start : EditorModule := ⟨"", .start⟩

/-- What the module shows. -/
inductive ModuleAction
  /-- `SendGenerate` and `SendCancel` of a connected client. -/
  | sentGenerate (generationId prompt : String) (seed : Option ℤ) (bounds : WireBounds)
  | sentCancel (generationId : String)
  /-- What the spawner shows, with the id that the chunk names which is being handled, if any. -/
  | spawner (chunk : Option String) (a : SpawnAction)

abbrev ModuleOp := Op EditorModule ModuleAction

/-- A call of the spawner. -/
def onSpawner (chunk : Option String) (f : SpawnOp) : ModuleOp := fun m =>
  ({ m with spawner := (f m.spawner).1 }, (f m.spawner).2.map (.spawner chunk))

def setActiveGenerationId (generationId : String) : ModuleOp := fun m =>
  ({ m with activeGenerationId := generationId }, [])

/-- `FString`'s equality, which does not look at case. -/
def sameId (a b : String) : Prop := foldKey a = foldKey b

instance (a b : String) : Decidable (sameId a b) := inferInstanceAs (Decidable (_ = _))

/-! ### User actions -/

/-- `BoundsForArea`, in doubles. -/
def boundsForArea (areaMeters : ℚ) : WireBounds :=
  let halfCm := Binary64.round (max 10 (min areaMeters 1000) * 100) / 2
  ⟨⟨-halfCm, -halfCm⟩, ⟨halfCm, halfCm⟩⟩

/-- What a start of a generation gets from the client, from the engine and from the data asset. -/
structure StartAnswers where
  /-- `Client->IsConnected()`, at first and once more in `SendGenerate`. -/
  connected : Bool
  sends : Bool
  /-- The digits of `FGuid::NewGuid()`. -/
  guid : String
  manifest : ManifestAnswers
  completed : ℕ → Bool

/-- The id that is minted. -/
def StartAnswers.generationId (ans : StartAnswers) : String :=
  "gen-" ++ String.ofList ((ans.guid.toList.take 8).map Char.toLower)

theorem StartAnswers.generationId_ne (ans : StartAnswers) : ans.generationId ≠ "" := by
  intro h
  have hlist := congrArg String.toList h
  rw [StartAnswers.generationId, String.toList_append] at hlist
  cases hlist

/-- What `StartGeneration` returns. -/
def StartAnswers.returned (ans : StartAnswers) : String :=
  if ans.connected then ans.generationId else ""

/-- `Client->SendGenerate`. -/
def sendGenerate (generationId prompt : String) (seed : Option ℤ) (bounds : WireBounds)
    (connected : Bool) : ModuleOp := fun m =>
  (m, if connected then [.sentGenerate generationId prompt seed bounds] else [])

/-- `Client->SendCancel`. -/
def sendCancel (generationId : String) (connected : Bool) : ModuleOp := fun m =>
  (m, if connected then [.sentCancel generationId] else [])

def startGeneration (prompt : String) (seed : Option ℤ) (areaMeters : ℚ) (ans : StartAnswers) :
    ModuleOp :=
  if ans.connected then
    seq (setActiveGenerationId ans.generationId)
      (seq (onSpawner none (beginGeneration ans.generationId
          (some (getOrLoadManifest ans.manifest)) ans.completed))
        (sendGenerate ans.generationId prompt seed (boundsForArea areaMeters) ans.sends))
  else skip

/-- What a start sends. -/
theorem startGeneration_sent {prompt p : String} {seed s : Option ℤ} {areaMeters : ℚ}
    {ans : StartAnswers} {m : EditorModule} {generationId : String} {bounds : WireBounds}
    (h : .sentGenerate generationId p s bounds ∈
      (startGeneration prompt seed areaMeters ans m).2) :
    generationId = ans.generationId ∧ s = seed ∧ bounds = boundsForArea areaMeters := by
  unfold startGeneration at h
  split at h
  · rcases List.mem_append.mp h with h | h
    · cases h
    rcases List.mem_append.mp h with h | h
    · obtain ⟨a, -, ha⟩ := List.mem_map.mp h
      cases ha
    · simp only [sendGenerate] at h
      split at h
      · cases List.mem_singleton.mp h
        exact ⟨rfl, rfl, rfl⟩
      · cases h
  · cases h

/-- `EndGeneration` of the spawner, and `ActiveGenerationId.Reset()`. -/
def endActive (discardPending : Bool) (completed : ℕ → Bool) : ModuleOp :=
  seq (onSpawner none (endGeneration discardPending completed)) (setActiveGenerationId "")

def cancelActiveGeneration (connected : Bool) (completed : ℕ → Bool) : ModuleOp := fun m =>
  if m.activeGenerationId = "" then (m, [])
  else seq (sendCancel m.activeGenerationId connected) (endActive true completed) m

/-! ### Handlers -/

/-- The entries of a chunk, each with what the engine answers to it. -/
def withAnswers (entries : List AssetEntry) (requests : ℕ → RequestAnswers) :
    List (AssetEntry × RequestAnswers) :=
  entries.zipIdx.map fun p => (p.1, requests p.2)

def handleChunk (chunk : ChunkMessage) (requests : ℕ → RequestAnswers) : ModuleOp := fun m =>
  if sameId chunk.generationId m.activeGenerationId then
    onSpawner (some chunk.generationId) (enqueueEntries (withAnswers chunk.assets requests)) m
  else (m, [])

def handleComplete (complete : CompleteMessage) (completed : ℕ → Bool) : ModuleOp := fun m =>
  if sameId complete.generationId m.activeGenerationId then endActive false completed m
  else (m, [])

def handleServerError (error : ErrorMessage) (completed : ℕ → Bool) : ModuleOp := fun m =>
  if m.activeGenerationId ≠ "" ∧ sameId error.generationId m.activeGenerationId then
    endActive true completed m
  else (m, [])

def handleClosed (completed : ℕ → Bool) : ModuleOp := fun m =>
  if m.activeGenerationId ≠ "" then endActive true completed m else (m, [])

/-- What the delegates of a message's type call in the module. -/
def handleMessage (requests : ℕ → RequestAnswers) (completed : ℕ → Bool) :
    ServerMessage → ModuleOp
  | .plan _ => skip
  | .chunk m => handleChunk m requests
  | .complete m => handleComplete m completed
  | .error m => handleServerError m completed
  | .invalid _ => skip

/-! ### Runs -/

/-- A call of the module or of its spawner, with what the surroundings answer. -/
inductive ModuleEvent
  | start (prompt : String) (seed : Option ℤ) (areaMeters : ℚ) (ans : StartAnswers)
  | cancel (connected : Bool) (completed : ℕ → Bool)
  /-- A frame of the server. -/
  | frame (data : Bytes) (requests : ℕ → RequestAnswers) (completed : ℕ → Bool)
  | closed (completed : ℕ → Bool)
  | loaded (key : String) (ans : LoadAnswers)
  | tick (world : Bool) (turns : List Turn)

/-- The operation of an event. -/
def ModuleEvent.op (E : Engine) : ModuleEvent → ModuleOp
  | .start prompt seed areaMeters ans => startGeneration prompt seed areaMeters ans
  | .cancel connected completed => cancelActiveGeneration connected completed
  | .frame data requests completed =>
    handleMessage requests completed (parseServerMessage E data)
  | .closed completed => handleClosed completed
  | .loaded key ans => onSpawner none (onCategoryAssetLoaded key ans)
  | .tick world turns => onSpawner none (spawnTick world turns)

end AetherForge.Plugin
