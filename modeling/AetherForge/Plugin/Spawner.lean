import Mathlib.Data.Rat.Defs
import AetherForge.Library.FoldedMap
import AetherForge.Library.Operation

/-!
# The spawner

`FAetherForgeSpawner`: a queue of entries that is drained under a time budget.  Each public
method, the editor tick and the completion of an asset load is one operation on the spawner's
state; what the engine answers (whether a trace hits, a load succeeds, an actor spawns, how many
entries fit the budget) comes with the call.

An operation shows what it did: generations opened and finalized, and what became of each entry.
The clock, the log and the throughput figures are left out.
-/

namespace AetherForge.Plugin

open Operation

/-! ### Data -/

/-- Strings as keys of a `TMap`, which compares them without regard to case. -/
def foldKey (s : String) : List Char := s.toList.map Char.toLower

abbrev TMap (V : Type) := FoldedMap foldKey V

structure Vec2 where
  x : ℚ
  y : ℚ
  deriving DecidableEq

structure Transform where
  location : Vec2
  yaw : ℚ
  scale : ℚ
  deriving DecidableEq

/-- `FAetherForgeAssetEntry`. -/
structure AssetEntry where
  category : String
  transform : Transform
  groundSnap : Bool
  tags : List String
  deriving DecidableEq

/-- A loaded object, by what the spawner asks about it: a class, a blueprint (with its generated
class, if any; in both cases whether the class is an actor's), or a static mesh with the lowest Z
of its bounds. -/
inductive Asset
  | uclass (isActor : Bool)
  | blueprint (generatedClass : Option Bool)
  | staticMesh (minZ : ℚ)
  | other

/-- `FAetherForgeManifestAssetEntry`; the path is `none` when it is not valid. -/
structure ManifestAssetEntry where
  assetPath : Option String
  footprintRadius : ℚ
  instanceable : Bool
  groundSnap : Bool
  displayName : String

/-- `FCategoryRuntime`.  A handle is named by the number of its request; the weak pointers hold
what they were set to. -/
structure CategoryRuntime where
  assetPath : Option String
  instanceable : Bool
  groundSnap : Bool
  loadRequested : Bool
  loadFailed : Bool
  loadHandle : Option ℕ
  loadedAsset : Option Asset
  hism : Bool
  waitingEntries : List AssetEntry

/-- The runtime state of a category at `BeginGeneration`. -/
def CategoryRuntime.ofManifest (e : ManifestAssetEntry) : CategoryRuntime :=
  ⟨e.assetPath, e.instanceable, e.groundSnap, false, false, none, none, false, []⟩

structure SpawnStats where
  spawnedCount : ℕ
  skippedCount : ℕ
  pendingCount : ℕ

structure Spawner where
  /-- Whether `ActiveTransaction` is valid. -/
  activeTransaction : Bool
  activeGenerationId : String
  finalizeWhenDrained : Bool
  /-- Whether the weak pointer `ContainerActor` is set. -/
  containerActor : Bool
  categories : TMap CategoryRuntime
  readyQueue : List AssetEntry
  readyQueueHead : ℕ
  stats : SpawnStats
  /-- How many loads were requested. -/
  requests : ℕ

def Spawner.start : Spawner := ⟨false, "", false, false, .empty, [], 0, ⟨0, 0, 0⟩, 0⟩

namespace Spawner

/-- The entries that wait for a load. -/
def waitingEntries (s : Spawner) : List AssetEntry :=
  s.categories.values.flatMap (·.waitingEntries)

/-- All entries still queued. -/
def pendingEntries (s : Spawner) : List AssetEntry :=
  s.readyQueue.drop s.readyQueueHead ++ s.waitingEntries

def numPendingEntries (s : Spawner) : ℕ :=
  s.readyQueue.length - s.readyQueueHead + s.categories.sumBy (·.waitingEntries.length)

end Spawner

/-! ### What an operation shows -/

/-- Why an entry was skipped. -/
inductive SkipReason
  | unknownCategory
  | loadFailed
  | noAssetPath
  | noGround
  | notStaticMesh
  | noComponent
  | notSpawnable
  | spawnFailed
  /-- Dropped by `EndGeneration(true)`. -/
  | discarded
  deriving DecidableEq

inductive SpawnAction
  | opened (generationId : String)
  | received (entry : AssetEntry)
  /-- `RequestAsyncLoad` for a category. -/
  | requested (handle : ℕ) (category : String)
  /-- An instance or actor in the world, with the Z it was given. -/
  | spawned (generationId : String) (entry : AssetEntry) (z : ℚ)
  | skipped (entry : AssetEntry) (why : SkipReason)
  /-- `CancelHandle`. -/
  | cancelled (handle : ℕ)
  /-- The broadcast, with the entries still queued at that moment. -/
  | finalized (stats : SpawnStats) (left : List AssetEntry)

abbrev SpawnOp := Op Spawner SpawnAction

def skipEntry (entry : AssetEntry) (why : SkipReason) : SpawnOp := fun s =>
  ({ s with stats := { s.stats with skippedCount := s.stats.skippedCount + 1 } },
    [.skipped entry why])

def countSpawned (entry : AssetEntry) (z : ℚ) : SpawnOp := fun s =>
  ({ s with stats := { s.stats with spawnedCount := s.stats.spawnedCount + 1 } },
    [.spawned s.activeGenerationId entry z])

/-- `Stats.PendingCount = NumPendingEntries()`. -/
def publishPending : SpawnOp := fun s =>
  ({ s with stats := { s.stats with pendingCount := s.numPendingEntries } }, [])

/-! ### Ending a generation -/

def finalizeGeneration : SpawnOp := fun s =>
  let stats := { s.stats with pendingCount := 0 }
  ({ s with
    activeTransaction := false
    activeGenerationId := ""
    finalizeWhenDrained := false
    containerActor := false
    categories := .empty
    readyQueue := []
    readyQueueHead := 0
    stats := stats }, [.finalized stats s.pendingEntries])

/-- Nothing waits. -/
def CategoryRuntime.emptied (rt : CategoryRuntime) : CategoryRuntime :=
  { rt with waitingEntries := [] }

/-- What `EndGeneration(true)` does before it finalizes; `completed` are the handles whose load
has completed. -/
def discardPending (completed : ℕ → Bool) : SpawnOp := fun s =>
  ({ s with
    categories := s.categories.mapValues .emptied
    readyQueue := []
    readyQueueHead := 0
    stats := { s.stats with skippedCount := s.stats.skippedCount + s.numPendingEntries } },
    s.pendingEntries.map (.skipped · .discarded) ++
      (s.categories.values.filterMap fun rt => rt.loadHandle.filter (!completed ·)).map .cancelled)

def endGeneration (discardPending? : Bool) (completed : ℕ → Bool) : SpawnOp := fun s =>
  if s.activeTransaction then
    if discardPending? then seq (discardPending completed) finalizeGeneration s
    else if s.numPendingEntries = 0 then finalizeGeneration s
    else ({ s with finalizeWhenDrained := true }, [])
  else (s, [])

/-- `Shutdown`; no tick comes after it. -/
def shutdown (completed : ℕ → Bool) : SpawnOp := fun s =>
  if s.activeTransaction then endGeneration true completed s else (s, [])

/-- `BeginGeneration` after it has ended an open one: the manifest's keys are distinct, so adding
them one by one to an empty map gives a map over the same keys. -/
def openGeneration (generationId : String) (manifest : Option (TMap ManifestAssetEntry)) :
    SpawnOp := fun s =>
  ({ s with
    activeTransaction := true
    activeGenerationId := generationId
    finalizeWhenDrained := false
    containerActor := false
    categories :=
      match manifest with
      | none => .empty
      | some m => m.mapValues .ofManifest
    readyQueue := []
    readyQueueHead := 0
    stats := ⟨0, 0, 0⟩ }, [.opened generationId])

def beginGeneration (generationId : String) (manifest : Option (TMap ManifestAssetEntry))
    (completed : ℕ → Bool) : SpawnOp :=
  seq (endGeneration true completed) (openGeneration generationId manifest)

/-! ### Loads -/

/-- What a completed load finds: the handle's asset, if the handle is valid, and what the path
resolves to. -/
structure LoadAnswers where
  handleAsset : Option Asset
  resolved : Option Asset

def LoadAnswers.loaded (ans : LoadAnswers) (rt : CategoryRuntime) : Option Asset :=
  match rt.loadHandle.bind fun _ => ans.handleAsset with
  | some asset => some asset
  | none => ans.resolved

/-- The load failed: what waited for it is dropped. -/
def CategoryRuntime.failed (rt : CategoryRuntime) : CategoryRuntime :=
  { rt with loadFailed := true, waitingEntries := [] }

/-- The load succeeded: what waited for it has been promoted. -/
def CategoryRuntime.promoted (asset : Asset) (rt : CategoryRuntime) : CategoryRuntime :=
  { rt with loadedAsset := some asset, waitingEntries := [] }

def onCategoryAssetLoaded (key : String) (ans : LoadAnswers) : SpawnOp := fun s =>
  match s.categories.find key with
  | none => (s, [])
  | some rt =>
    match ans.loaded rt with
    | none =>
      ({ s with
        categories := s.categories.modify key .failed
        stats := { s.stats with
          skippedCount := s.stats.skippedCount + rt.waitingEntries.length } },
        rt.waitingEntries.map (.skipped · .loadFailed))
    | some asset =>
      ({ s with
        categories := s.categories.modify key (.promoted asset)
        readyQueue := s.readyQueue ++ rt.waitingEntries }, [])

/-- What `RequestAsyncLoad` does: whether it returns a handle, and whether it completes the load
before it returns. -/
structure RequestAnswers where
  handle : Bool
  atOnce : Option LoadAnswers
  /-- Whether the weak pointer to the loaded asset is still valid afterwards. -/
  assetValid : Bool

def requestAsyncLoad (key : String) (ans : RequestAnswers) : SpawnOp := fun s =>
  seq
    (match ans.atOnce with
      | none => skip
      | some load => onCategoryAssetLoaded key load)
    (fun t => ({ t with
      categories := t.categories.modify key fun rt =>
        { rt with loadHandle := if ans.handle then some s.requests else none } },
      [.requested s.requests key]))
    { s with requests := s.requests + 1 }

/-- A load has been requested. -/
def CategoryRuntime.requested (rt : CategoryRuntime) : CategoryRuntime :=
  { rt with loadRequested := true }

/-- No load can be requested. -/
def CategoryRuntime.pathless (rt : CategoryRuntime) : CategoryRuntime :=
  { rt with loadRequested := true, loadFailed := true }

/-- One more entry waits. -/
def CategoryRuntime.addWaiting (entry : AssetEntry) (rt : CategoryRuntime) : CategoryRuntime :=
  { rt with waitingEntries := rt.waitingEntries ++ [entry] }

/-- The end of the loop body in `EnqueueEntries`. -/
def queueEntry (entry : AssetEntry) (assetValid : Bool) : SpawnOp := fun s =>
  match s.categories.find entry.category with
  | none => (s, [])
  | some rt =>
    if rt.loadedAsset.isSome && assetValid then
      ({ s with readyQueue := s.readyQueue ++ [entry] }, [])
    else
      ({ s with categories := s.categories.modify entry.category (.addWaiting entry) }, [])

/-- One entry of `EnqueueEntries`. -/
def enqueueEntry (entry : AssetEntry) (ans : RequestAnswers) : SpawnOp := fun s =>
  match s.categories.find entry.category with
  | none => skipEntry entry .unknownCategory s
  | some rt =>
    if rt.loadFailed then skipEntry entry .loadFailed s
    else if rt.loadRequested then queueEntry entry ans.assetValid s
    else
      match rt.assetPath with
      | some _ =>
        seq (requestAsyncLoad entry.category ans) (queueEntry entry ans.assetValid)
          { s with categories := s.categories.modify entry.category .requested }
      | none =>
        skipEntry entry .noAssetPath
          { s with categories := s.categories.modify entry.category .pathless }

/-- The entry is shown, and then processed. -/
def receiveEntry (p : AssetEntry × RequestAnswers) : SpawnOp :=
  seq (fun s => (s, [.received p.1])) (enqueueEntry p.1 p.2)

def enqueueEntries (entries : List (AssetEntry × RequestAnswers)) : SpawnOp := fun s =>
  if s.activeTransaction then seq (forEach receiveEntry entries) publishPending s else (s, [])

/-! ### Spawning -/

/-- What the engine answers while one entry is spawned. -/
structure SpawnAnswers where
  /-- The Z that the ground trace hits. -/
  groundZ : Option ℚ
  /-- Whether the weak pointers to the asset, the component and the container are valid. -/
  assetValid : Bool
  hismValid : Bool
  containerValid : Bool
  /-- Whether the container, and the entry's own actor, can be spawned. -/
  containerSpawned : Bool
  actorSpawned : Bool

/-- `Runtime.LoadedAsset.Get()`. -/
def CategoryRuntime.asset (rt : CategoryRuntime) (ans : SpawnAnswers) : Option Asset :=
  if ans.assetValid then rt.loadedAsset else none

def boundsGroundLift (asset : Option Asset) (scale : ℚ) : ℚ :=
  match asset with
  | some (.staticMesh minZ) => if minZ < 0 then -minZ * scale else 0
  | _ => 0

/-- The state with a container, unless none can be had. -/
def getOrCreateContainerActor (ans : SpawnAnswers) (s : Spawner) : Option Spawner :=
  if s.containerActor && ans.containerValid then some s
  else if ans.containerSpawned then some { s with containerActor := true }
  else none

/-- The state with the category's component, unless none can be had. -/
def getOrCreateHism (key : String) (rt : CategoryRuntime) (ans : SpawnAnswers) (s : Spawner) :
    Option Spawner :=
  if rt.hism && ans.hismValid then some s
  else
    (getOrCreateContainerActor ans s).map fun s =>
      { s with categories := s.categories.modify key fun rt => { rt with hism := true } }

def spawnInstanced (entry : AssetEntry) (rt : CategoryRuntime) (ans : SpawnAnswers) (z : ℚ) :
    SpawnOp := fun s =>
  match rt.asset ans with
  | some (.staticMesh _) =>
    match getOrCreateHism entry.category rt ans s with
    | some s' => countSpawned entry z s'
    | none => skipEntry entry .noComponent s
  | _ => skipEntry entry .notStaticMesh s

/-- Whether `SpawnAsActor` finds an actor class or a static mesh to spawn. -/
def Asset.spawnable : Asset → Bool
  | .uclass isActor => isActor
  | .blueprint generatedClass => generatedClass.getD false
  | .staticMesh _ => true
  | .other => false

def spawnAsActor (entry : AssetEntry) (rt : CategoryRuntime) (ans : SpawnAnswers) (z : ℚ) :
    SpawnOp :=
  if (rt.asset ans).any Asset.spawnable then
    if ans.actorSpawned then countSpawned entry z else skipEntry entry .spawnFailed
  else skipEntry entry .notSpawnable

/-- The end of `SpawnEntry`, at a resolved height. -/
def spawnAt (entry : AssetEntry) (rt : CategoryRuntime) (ans : SpawnAnswers) (z : ℚ) : SpawnOp :=
  if rt.instanceable then spawnInstanced entry rt ans z else spawnAsActor entry rt ans z

def spawnEntry (entry : AssetEntry) (rt : CategoryRuntime) (ans : SpawnAnswers) : SpawnOp :=
  if entry.groundSnap then
    match ans.groundZ with
    | some z =>
      spawnAt entry rt ans (z + boundsGroundLift (rt.asset ans) entry.transform.scale)
    | none => skipEntry entry .noGround
  else spawnAt entry rt ans 0

/-- Take the entry at the head of the queue. -/
def takeEntry (entry : AssetEntry) (ans : SpawnAnswers) : SpawnOp := fun s =>
  let s := { s with readyQueueHead := s.readyQueueHead + 1 }
  match s.categories.find entry.category with
  | some rt => spawnEntry entry rt ans s
  | none => (s, [])

/-- One iteration that the budget allows: the engine's answers, and the loads that complete
while the entry is spawned. -/
structure Turn where
  answers : SpawnAnswers
  completions : List (String × LoadAnswers)

/-- The loop of `SpawnTick`; the budget is spent when the turns are. -/
def drain : List Turn → SpawnOp
  | [] => skip
  | turn :: turns => fun s =>
    match s.readyQueue[s.readyQueueHead]? with
    | none => (s, [])
    | some entry =>
      seq (takeEntry entry turn.answers)
        (seq (forEach (fun c => onCategoryAssetLoaded c.1 c.2) turn.completions) (drain turns)) s

/-- Reset a queue that has been drained. -/
def compact : SpawnOp := fun s =>
  (if s.readyQueue.length ≤ s.readyQueueHead then { s with readyQueue := [], readyQueueHead := 0 }
    else s, [])

def finalizeIfDrained : SpawnOp := fun s =>
  if s.finalizeWhenDrained = true ∧ s.numPendingEntries = 0 then finalizeGeneration s else (s, [])

/-- `SpawnTick`; `world` is whether there is an editor world. -/
def spawnTick (world : Bool) (turns : List Turn) : SpawnOp := fun s =>
  if s.activeTransaction then
    if s.readyQueue.length ≤ s.readyQueueHead then finalizeIfDrained s
    else if world then
      seq (drain turns) (seq compact (seq publishPending finalizeIfDrained)) s
    else (s, [])
  else (s, [])

/-! ### Runs -/

/-- A call of the spawner, with what the engine answers. -/
inductive SpawnCall
  | begin (generationId : String) (manifest : Option (TMap ManifestAssetEntry))
      (completed : ℕ → Bool)
  | enqueue (entries : List (AssetEntry × RequestAnswers))
  | loaded (key : String) (ans : LoadAnswers)
  | tick (world : Bool) (turns : List Turn)
  | finish (discardPending : Bool) (completed : ℕ → Bool)

/-- The operation of a call. -/
def SpawnCall.op : SpawnCall → SpawnOp
  | .begin generationId manifest completed => beginGeneration generationId manifest completed
  | .enqueue entries => enqueueEntries entries
  | .loaded key ans => onCategoryAssetLoaded key ans
  | .tick world turns => spawnTick world turns
  | .finish discardPending completed => endGeneration discardPending completed

end AetherForge.Plugin
