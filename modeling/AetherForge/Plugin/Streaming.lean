import AetherForge.Plugin.Conservation

/-!
# Streamed loads

The spawner together with the loads it has requested from `FStreamableManager`.  A request returns
a handle and never completes before it returns; a completed load has its callback delivered on a
later tick; `CancelHandle` suppresses the callback of the handle it is called on, and of no other;
an asset whose handle is held is not collected, and the weak pointer to one that has been collected
reads as null.

The callbacks are delivered between the calls of the spawner, and while a tick spawns an entry.

* `Load` — a load whose callback is still to come;
* `StreamEvent` — a call of the spawner, or what the engine does with a load or an asset;
* `streamEnqueue_meets`, `streamDrain_meets`, `streamTick_meets` — what holds of the parts of a call
  holds of the call;
* `streamTick_refines`, `event_refines` — the spawner's part of each event is a run of its calls.
-/

namespace AetherForge.Plugin

open Operation Transition

/-! ### State -/

/-- A load whose callback has not been delivered: the key its callback carries, the generation
that requested it, and `HasLoadCompleted`. -/
structure Load where
  handle : ℕ
  key : String
  generation : ℕ
  completed : Bool
  deriving DecidableEq

structure Streaming where
  spawner : Spawner
  loads : List Load
  /-- How many generations have been opened. -/
  generation : ℕ

def Streaming.start : Streaming := ⟨.start, [], 0⟩

/-- What is shown: the spawner's actions, and each delivered callback, with the generation it
finds and the state of the spawner before and after it. -/
inductive StreamAction
  | spawner (a : SpawnAction)
  | delivered (load : Load) (ans : LoadAnswers) (generation : ℕ) (before after : Spawner)

def StreamAction.spawnAction : StreamAction → Option SpawnAction
  | .spawner a => some a
  | .delivered _ _ _ _ _ => none

/-- The spawner's actions. -/
def spawnActions (o : List StreamAction) : List SpawnAction := o.filterMap StreamAction.spawnAction

abbrev StreamOp := Op Streaming StreamAction

theorem spawnActions_append (o o' : List StreamAction) :
    spawnActions (o ++ o') = spawnActions o ++ spawnActions o' := List.filterMap_append

theorem spawnActions_map (o : List SpawnAction) : spawnActions (o.map .spawner) = o := by
  rw [spawnActions, List.filterMap_map]
  exact List.filterMap_some

/-! ### Requests and callbacks -/

/-- `FStreamableHandle::HasLoadCompleted`. -/
def hasLoadCompleted (e : Streaming) (handle : ℕ) : Bool :=
  !e.loads.any fun load => load.handle = handle && !load.completed

/-- What the manager makes of an action of the spawner. -/
def observe (e : Streaming) : SpawnAction → Streaming
  | .opened _ => { e with generation := e.generation + 1 }
  | .requested handle key => { e with loads := e.loads ++ [⟨handle, key, e.generation, false⟩] }
  | .cancelled handle => { e with loads := e.loads.filter (·.handle ≠ handle) }
  | _ => e

/-- An operation of the spawner. -/
def ofSpawner (f : SpawnOp) : StreamOp := fun e =>
  ({ (f e.spawner).2.foldl observe e with spawner := (f e.spawner).1 },
    (f e.spawner).2.map .spawner)

theorem foldl_observe (e : Streaming) (s : Spawner) (o : List SpawnAction) :
    o.foldl observe { e with spawner := s } = { o.foldl observe e with spawner := s } := by
  induction o generalizing e with
  | nil => rfl
  | cons a o ih =>
    rw [List.foldl_cons, List.foldl_cons, ← ih]
    cases a <;> rfl

/-- Actions that the manager does not notice. -/
theorem foldl_observe_same {o : List SpawnAction} (ho : ∀ a ∈ o, ∀ e, observe e a = e)
    (e : Streaming) : o.foldl observe e = e := by
  induction o generalizing e with
  | nil => rfl
  | cons a o ih =>
    rw [List.foldl_cons, ho a List.mem_cons_self, ih fun a ha => ho a (.tail _ ha)]

/-- What the manager makes of actions does not depend on where they are cut. -/
theorem ofSpawner_seq (f g : SpawnOp) : ofSpawner (seq f g) = seq (ofSpawner f) (ofSpawner g) := by
  funext e
  simp only [ofSpawner, seq, List.foldl_append, List.map_append, foldl_observe]

/-- A load completes. -/
def completeLoad (handle : ℕ) : StreamOp := fun e =>
  ({ e with loads := e.loads.map fun load =>
      if load.handle = handle then { load with completed := true } else load }, [])

/-- The callback is taken from those to come, and called. -/
def callBack (load : Load) (ans : LoadAnswers) : StreamOp :=
  seq (fun e => ({ e with loads := e.loads.filter (·.handle ≠ load.handle) },
      [.delivered load ans e.generation e.spawner
        (onCategoryAssetLoaded load.key ans e.spawner).1]))
    (ofSpawner (onCategoryAssetLoaded load.key ans))

/-- The callback of a completed load, unless there is none to come. -/
def deliver (handle : ℕ) (ans : LoadAnswers) : StreamOp := fun e =>
  match e.loads.find? fun load => load.handle = handle && load.completed with
  | none => (e, [])
  | some load => callBack load ans e

/-- The asset is gone, unless a handle holds it. -/
def CategoryRuntime.collected (rt : CategoryRuntime) : CategoryRuntime :=
  match rt.loadHandle with
  | some _ => rt
  | none => { rt with loadedAsset := none }

/-- The asset of a category is collected. -/
def collectAsset (key : String) : StreamOp := fun e =>
  ({ e with spawner := { e.spawner with
      categories := e.spawner.categories.modify key .collected } }, [])

/-! ### Calls of the spawner -/

/-- `RequestAsyncLoad` answers with a handle, and the load is not complete when it returns. -/
def streamEnqueue (entries : List AssetEntry) : StreamOp :=
  ofSpawner (enqueueEntries (entries.map fun entry => (entry, loadLater)))

/-- In an open generation, the entries are received one by one. -/
theorem streamEnqueue_open (entries : List AssetEntry) {e : Streaming}
    (ha : e.spawner.activeTransaction = true) :
    streamEnqueue entries e = seq (forEach (fun entry =>
      ofSpawner (receiveEntry (entry, loadLater))) entries) (ofSpawner publishPending) e := by
  have hentries : ofSpawner (forEach receiveEntry (entries.map fun entry => (entry, loadLater))) =
      forEach (fun entry => ofSpawner (receiveEntry (entry, loadLater))) entries := by
    induction entries with
    | nil => rfl
    | cons entry entries ih => rw [List.map_cons, forEach, forEach, ofSpawner_seq, ih]
  rw [← hentries, ← ofSpawner_seq]
  simp only [streamEnqueue, ofSpawner, enqueueEntries, if_pos ha]

theorem streamEnqueue_closed (entries : List AssetEntry) {e : Streaming}
    (ha : e.spawner.activeTransaction = false) : streamEnqueue entries e = (e, []) := by
  simp only [streamEnqueue, ofSpawner, enqueueEntries, ha, Bool.false_eq_true, if_false]
  rfl

/-- One iteration of a tick, with the callbacks that are delivered while the entry is spawned. -/
structure StreamTurn where
  answers : SpawnAnswers
  deliveries : List (ℕ × LoadAnswers)

def streamDrain : List StreamTurn → StreamOp
  | [] => skip
  | turn :: turns => fun e =>
    match e.spawner.readyQueue[e.spawner.readyQueueHead]? with
    | none => (e, [])
    | some entry =>
      seq (ofSpawner (takeEntry entry turn.answers))
        (seq (forEach (fun d => deliver d.1 d.2) turn.deliveries) (streamDrain turns)) e

/-- `SpawnTick`. -/
def streamTick (world : Bool) (turns : List StreamTurn) : StreamOp := fun e =>
  if e.spawner.activeTransaction then
    if e.spawner.readyQueue.length ≤ e.spawner.readyQueueHead then ofSpawner finalizeIfDrained e
    else if world then
      seq (streamDrain turns) (ofSpawner (seq compact (seq publishPending finalizeIfDrained))) e
    else (e, [])
  else (e, [])

section Rules

variable {R : Streaming → List StreamAction → Streaming → Prop}

theorem streamEnqueue_meets (hR : Composable R)
    (hreceive : ∀ entry, Meets R (ofSpawner (receiveEntry (entry, loadLater))))
    (hpublish : Meets R (ofSpawner publishPending)) (entries : List AssetEntry) :
    Meets R (streamEnqueue entries) := by
  intro e
  rcases Bool.eq_false_or_eq_true e.spawner.activeTransaction with ha | ha
  · rw [streamEnqueue_open entries ha]
    exact meets_seq hR (meets_forEach hR hreceive entries) hpublish e
  · rw [streamEnqueue_closed entries ha]
    exact hR.refl e

/-- **The loop of a tick**: it takes the entry at the head, and callbacks are delivered. -/
theorem streamDrain_meets (hR : Composable R)
    (htake : ∀ e entry ans, e.spawner.readyQueue[e.spawner.readyQueueHead]? = some entry →
      R e (ofSpawner (takeEntry entry ans) e).2 (ofSpawner (takeEntry entry ans) e).1)
    (hdeliver : ∀ handle ans, Meets R (deliver handle ans)) (turns : List StreamTurn) :
    Meets R (streamDrain turns) := by
  induction turns with
  | nil => exact meets_skip hR
  | cons turn turns ih =>
    intro e
    cases hentry : e.spawner.readyQueue[e.spawner.readyQueueHead]? with
    | none =>
      simp only [streamDrain, hentry]
      exact hR.refl e
    | some entry =>
      have hdeliveries : Meets R (forEach (fun d => deliver d.1 d.2) turn.deliveries) :=
        meets_forEach hR (fun d => hdeliver d.1 d.2) turn.deliveries
      simp only [streamDrain, hentry]
      exact hR.trans _ _ _ _ _ (htake e entry turn.answers hentry)
        (meets_seq hR hdeliveries ih _)

/-- **A tick**, by its loop and what follows it. -/
theorem streamTick_meets (hR : Composable R) (hdrain : ∀ turns, Meets R (streamDrain turns))
    (hcompact : Meets R (ofSpawner compact)) (hpublish : Meets R (ofSpawner publishPending))
    (hfinalize : Meets R (ofSpawner finalizeIfDrained)) (world : Bool) (turns : List StreamTurn) :
    Meets R (streamTick world turns) := by
  intro e
  unfold streamTick
  split
  · split
    · exact hfinalize e
    · split
      · have hend := meets_seq hR hcompact (meets_seq hR hpublish hfinalize)
        rw [ofSpawner_seq, ofSpawner_seq]
        exact meets_seq hR (hdrain turns) hend e
      · exact hR.refl e
  · exact hR.refl e

end Rules

def streamBegin (generationId : String) (manifest : Option (TMap ManifestAssetEntry)) :
    StreamOp := fun e =>
  ofSpawner (beginGeneration generationId manifest (hasLoadCompleted e)) e

def streamFinish (discard : Bool) : StreamOp := fun e =>
  ofSpawner (endGeneration discard (hasLoadCompleted e)) e

/-! ### Runs -/

/-- A call of the spawner, or what the engine does on its own. -/
inductive StreamEvent
  | begin (generationId : String) (manifest : Option (TMap ManifestAssetEntry))
  | enqueue (entries : List AssetEntry)
  | complete (handle : ℕ)
  | deliver (handle : ℕ) (ans : LoadAnswers)
  | collect (key : String)
  | tick (world : Bool) (turns : List StreamTurn)
  | finish (discardPending : Bool)

/-- The operation of an event. -/
def StreamEvent.op : StreamEvent → StreamOp
  | .begin generationId manifest => streamBegin generationId manifest
  | .enqueue entries => streamEnqueue entries
  | .complete handle => completeLoad handle
  | .deliver handle ans => AetherForge.Plugin.deliver handle ans
  | .collect key => collectAsset key
  | .tick world turns => streamTick world turns
  | .finish discard => streamFinish discard

/-! ### The spawner's part -/

/-- What an operation does to the spawner, and what it shows of it. -/
def spawnerPart (f : StreamOp) (e : Streaming) : Spawner × List SpawnAction :=
  ((f e).1.spawner, spawnActions (f e).2)

section Refinement

variable {e : Streaming}

theorem spawnerPart_ofSpawner (f : SpawnOp) (e : Streaming) :
    spawnerPart (ofSpawner f) e = f e.spawner := by
  rw [spawnerPart, ofSpawner, spawnActions_map]

/-- Parts in a row. -/
theorem spawnerPart_seq {f f' : StreamOp} {g g' : SpawnOp} (h : spawnerPart f e = g e.spawner)
    (h' : spawnerPart f' (f e).1 = g' (f e).1.spawner) :
    spawnerPart (seq f f') e = seq g g' e.spawner := by
  have hspawner : (f e).1.spawner = (g e.spawner).1 := congrArg Prod.fst h
  have hshown : spawnActions (f e).2 = (g e.spawner).2 := congrArg Prod.snd h
  rw [hspawner] at h'
  have hspawner' : (f' (f e).1).1.spawner = (g' (g e.spawner).1).1 := congrArg Prod.fst h'
  have hshown' : spawnActions (f' (f e).1).2 = (g' (g e.spawner).1).2 := congrArg Prod.snd h'
  rw [spawnerPart, seq, seq, spawnActions_append, hspawner', hshown, hshown']

/-- A delivered callback is the completion of a load, if there is one to come. -/
theorem deliver_refines (handle : ℕ) (ans : LoadAnswers) (e : Streaming) :
    spawnerPart (deliver handle ans) e = skip e.spawner ∨
      ∃ key, spawnerPart (deliver handle ans) e = onCategoryAssetLoaded key ans e.spawner := by
  cases hload : e.loads.find? fun load => load.handle = handle && load.completed with
  | none =>
    refine .inl ?_
    simp only [spawnerPart, deliver, hload]
    rfl
  | some load =>
    refine .inr ⟨load.key, ?_⟩
    have hcall : spawnerPart (callBack load ans) e =
        seq skip (onCategoryAssetLoaded load.key ans) e.spawner :=
      spawnerPart_seq rfl (spawnerPart_ofSpawner _ _)
    simp only [spawnerPart, deliver, hload]
    exact hcall

/-- What a callback does to the spawner, from the state in which it is called. -/
theorem deliver_by {R : Spawner → List SpawnAction → Spawner → Prop} {handle : ℕ}
    {ans : LoadAnswers} (hnone : R e.spawner [] e.spawner)
    (hcalled : ∀ key, R e.spawner (onCategoryAssetLoaded key ans e.spawner).2
      (onCategoryAssetLoaded key ans e.spawner).1) :
    R e.spawner (spawnActions (deliver handle ans e).2) (deliver handle ans e).1.spawner := by
  rcases deliver_refines handle ans e with hpart | ⟨key, hpart⟩
  · obtain ⟨hspawner, hshown⟩ := Prod.mk.inj hpart
    rw [hspawner, hshown]
    exact hnone
  · obtain ⟨hspawner, hshown⟩ := Prod.mk.inj (hpart.trans Prod.mk.eta.symm)
    rw [hspawner, hshown]
    exact hcalled key

theorem deliveries_refine (deliveries : List (ℕ × LoadAnswers)) (e : Streaming) :
    ∃ completions : List (String × LoadAnswers),
      spawnerPart (forEach (fun d => deliver d.1 d.2) deliveries) e =
        forEach (fun c => onCategoryAssetLoaded c.1 c.2) completions e.spawner := by
  induction deliveries generalizing e with
  | nil => exact ⟨[], rfl⟩
  | cons d deliveries ih =>
    obtain ⟨rest, hrest⟩ := ih (deliver d.1 d.2 e).1
    rcases deliver_refines d.1 d.2 e with hnone | ⟨key, hcalled⟩
    · exact ⟨rest, spawnerPart_seq hnone hrest⟩
    · exact ⟨(key, d.2) :: rest, spawnerPart_seq hcalled hrest⟩

/-- **The loop of a tick** is the spawner's, with the completions that were delivered. -/
theorem streamDrain_refines (turns : List StreamTurn) (e : Streaming) :
    ∃ turns' : List Turn, spawnerPart (streamDrain turns) e = drain turns' e.spawner := by
  induction turns generalizing e with
  | nil => exact ⟨[], rfl⟩
  | cons turn turns ih =>
    cases hentry : e.spawner.readyQueue[e.spawner.readyQueueHead]? with
    | none =>
      refine ⟨[], ?_⟩
      simp only [spawnerPart, streamDrain, hentry]
      rfl
    | some entry =>
      obtain ⟨completions, hcompletions⟩ := deliveries_refine turn.deliveries
        (ofSpawner (takeEntry entry turn.answers) e).1
      obtain ⟨turns', hturns⟩ := ih (forEach (fun d => deliver d.1 d.2) turn.deliveries
        (ofSpawner (takeEntry entry turn.answers) e).1).1
      refine ⟨⟨turn.answers, completions⟩ :: turns', ?_⟩
      have hturn := spawnerPart_seq (spawnerPart_ofSpawner (takeEntry entry turn.answers) e)
        (spawnerPart_seq hcompletions hturns)
      simp only [spawnerPart, streamDrain, drain, hentry]
      exact hturn

/-- **A tick** is a tick of the spawner. -/
theorem streamTick_refines (world : Bool) (turns : List StreamTurn) (e : Streaming) :
    ∃ turns' : List Turn,
      spawnerPart (streamTick world turns) e = spawnTick world turns' e.spawner := by
  obtain ⟨turns', hturns⟩ := streamDrain_refines turns e
  refine ⟨turns', ?_⟩
  unfold spawnerPart streamTick spawnTick
  split
  · split
    · exact spawnerPart_ofSpawner finalizeIfDrained e
    · split
      · exact spawnerPart_seq hturns (spawnerPart_ofSpawner _ _)
      · rfl
  · rfl

/-- **The spawner's part of an event** is a call, or nothing; a collected asset only clears the
pointer of its category. -/
theorem event_refines (event : StreamEvent) (e : Streaming) :
    (∃ calls : List SpawnCall,
      exec (toStep SpawnCall.op) e.spawner calls = some (spawnerPart event.op e)) ∨
      ∃ key, spawnerPart event.op e = ({ e.spawner with
        categories := e.spawner.categories.modify key .collected }, []) := by
  have hcall : ∀ call : SpawnCall, spawnerPart event.op e = call.op e.spawner →
      ∃ calls : List SpawnCall,
        exec (toStep SpawnCall.op) e.spawner calls = some (spawnerPart event.op e) := by
    intro call h
    refine ⟨[call], ?_⟩
    rw [h]
    exact exec_singleton (toStep SpawnCall.op) rfl
  cases event with
  | begin generationId manifest =>
    exact .inl (hcall (.begin generationId manifest (hasLoadCompleted e))
      (spawnerPart_ofSpawner _ _))
  | enqueue entries =>
    exact .inl (hcall (.enqueue (entries.map fun entry => (entry, loadLater)))
      (spawnerPart_ofSpawner _ _))
  | complete handle => exact .inl ⟨[], rfl⟩
  | deliver handle ans =>
    rcases deliver_refines handle ans e with hnone | ⟨key, hcalled⟩
    · exact .inl ⟨[], congrArg some hnone.symm⟩
    · exact .inl (hcall (.loaded key ans) hcalled)
  | collect key => exact .inr ⟨key, rfl⟩
  | tick world turns =>
    obtain ⟨turns', hturns⟩ := streamTick_refines world turns e
    exact .inl (hcall (.tick world turns') hturns)
  | finish discard =>
    exact .inl (hcall (.finish discard (hasLoadCompleted e)) (spawnerPart_ofSpawner _ _))

end Refinement

end AetherForge.Plugin
