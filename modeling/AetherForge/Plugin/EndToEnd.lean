import AetherForge.Plugin.Draining
import AetherForge.Plugin.Tracking

/-!
# From the placement to the level

A press of Generate sends a request; the server plans, places and streams; the client parses the
frames in the order of the stream, and the module and the panel handle each, while load callbacks
and ticks of the spawner come at any time in between.

* `Arriving`, `Arrived` — the plugin against the messages handled, before and after the complete;
* `run_arrives` — every run in which the messages of a stream come in leads from one to the other;
* `conveys_of_emitted` — every message of a stream is parsed as what it says;
* `placement_arrives` — once the complete is handled, the spawner has received exactly what was
  placed, in order, the panel has counted it, and nothing of it is dropped.
-/

namespace AetherForge.Plugin

open Go GoJson Interaction Operation StructJson Transition

/-! ### Arrivals -/

/-- An event of the module, and what the panel does with a frame. -/
def arrivalOp (E : Engine) (T : TextFunctions) (event : ModuleEvent) : EditorOp :=
  seq (onModule (event.op E))
    (onPanel fun p =>
      match event with
      | .frame data _ _ => p.handleMessage T (parseServerMessage E data)
      | _ => p)

/-- A frame of the server, a load callback or a tick. -/
def ModuleEvent.arrival : ModuleEvent → Bool
  | .frame _ _ _ => true
  | .loaded _ _ => true
  | .tick _ _ => true
  | _ => false

def ModuleEvent.data? : ModuleEvent → Option Bytes
  | .frame data _ _ => some data
  | _ => none

/-- The frames, in the order in which they are handled. -/
def framesOf (events : List ModuleEvent) : List Bytes := events.filterMap ModuleEvent.data?

/-- What the spawner shows. -/
def spawnerShows (os : List ModuleAction) : List SpawnAction :=
  os.filterMap ModuleAction.spawnerAction

/-- The entries that the spawner receives, in order. -/
def entriesReceived (os : List ModuleAction) : List AssetEntry :=
  (spawnerShows os).filterMap SpawnAction.receivedEntry

def ServerMessage.assets : ServerMessage → List AssetEntry
  | .chunk m => m.assets
  | _ => []

theorem spawnerShows_append (os os' : List ModuleAction) :
    spawnerShows (os ++ os') = spawnerShows os ++ spawnerShows os' := List.filterMap_append

theorem entriesReceived_append (os os' : List ModuleAction) :
    entriesReceived (os ++ os') = entriesReceived os ++ entriesReceived os' := by
  rw [entriesReceived, spawnerShows_append, List.filterMap_append]
  rfl

theorem spawnerShows_onSpawner (chunk : Option String) (f : SpawnOp) (m : EditorModule) :
    spawnerShows (onSpawner chunk f m).2 = (f m.spawner).2 := spawnerActions_map chunk _

/-! ### What the spawner receives -/

section Receipts

variable {s : Spawner} {m : EditorModule}

/-- What receives nothing. -/
theorem receives_nothing {o : List SpawnAction} (h : ∀ x ∈ o, x.Within) :
    o.filterMap SpawnAction.receivedEntry = [] := by
  refine List.filterMap_eq_nil_iff.mpr fun x hx => ?_
  cases x with
  | received entry => exact absurd (h _ hx) id
  | opened | requested | spawned | skipped | cancelled | finalized => rfl

theorem receiveEntry_receives (p : AssetEntry × RequestAnswers) (s : Spawner) :
    (receiveEntry p s).2.filterMap SpawnAction.receivedEntry = [p.1] := by
  have hrest : (enqueueEntry p.1 p.2 s).2.filterMap SpawnAction.receivedEntry = [] :=
    receives_nothing fun x hx => (enqueueEntry_progresses p.1 p.2 s x hx).within
  simp only [receiveEntry, seq, List.filterMap_append, hrest, List.append_nil]
  rfl

theorem receiveEntries_receive (entries : List (AssetEntry × RequestAnswers)) (s : Spawner) :
    (forEach receiveEntry entries s).2.filterMap SpawnAction.receivedEntry =
      entries.map Prod.fst := by
  induction entries generalizing s with
  | nil => rfl
  | cons p entries ih =>
    simp only [forEach, seq, List.filterMap_append, receiveEntry_receives, ih]
    rfl

theorem enqueueEntries_receives (entries : List (AssetEntry × RequestAnswers))
    (h : s.activeTransaction = true) :
    (enqueueEntries entries s).2.filterMap SpawnAction.receivedEntry = entries.map Prod.fst := by
  simp only [enqueueEntries, h, if_true, seq, publishPending, List.append_nil]
  exact receiveEntries_receive entries s

theorem withAnswers_fst (entries : List AssetEntry) (requests : ℕ → RequestAnswers) :
    (withAnswers entries requests).map Prod.fst = entries := by
  rw [withAnswers, List.map_map]
  exact List.zipIdx_map_fst 0 entries

theorem endActive_receives (discard : Bool) (completed : ℕ → Bool) (m : EditorModule) :
    entriesReceived (endActive discard completed m).2 = [] := by
  have hshown : (endActive discard completed m).2 =
      (onSpawner none (endGeneration discard completed) m).2 := List.append_nil _
  rw [hshown, entriesReceived, spawnerShows_onSpawner]
  exact receives_nothing (endGeneration_within discard completed m.spawner)

/-- **What a message brings** to the generation that it names. -/
theorem handleMessage_receives (requests : ℕ → RequestAnswers) (completed : ℕ → Bool)
    {message : ServerMessage} (hcarries : message.carries m.activeGenerationId = true)
    (hactive : m.spawner.activeTransaction = true) :
    entriesReceived (handleMessage requests completed message m).2 = message.assets := by
  cases message with
  | plan => rfl
  | chunk chunk =>
    have hsame : sameId chunk.generationId m.activeGenerationId := of_decide_eq_true hcarries
    simp only [handleMessage, handleChunk, if_pos hsame, entriesReceived, spawnerShows_onSpawner]
    rw [enqueueEntries_receives _ hactive, withAnswers_fst]
    rfl
  | complete complete =>
    simp only [handleMessage, handleComplete]
    split
    · exact endActive_receives _ _ _
    · rfl
  | error error =>
    simp only [handleMessage, handleServerError]
    split
    · exact endActive_receives _ _ _
    · rfl
  | invalid => rfl

/-- A callback and a tick bring nothing, and leave the id of the module. -/
theorem spawnerEvent_receives (E : Engine) {event : ModuleEvent} (harrival : event.arrival = true)
    (hframe : event.data? = none) (m : EditorModule) :
    entriesReceived (event.op E m).2 = [] ∧
      (event.op E m).1.activeGenerationId = m.activeGenerationId := by
  cases event with
  | start | cancel | closed => cases harrival
  | frame => cases hframe
  | loaded key ans =>
    refine ⟨?_, rfl⟩
    rw [ModuleEvent.op, entriesReceived, spawnerShows_onSpawner]
    exact receives_nothing fun x hx => (loaded_progresses key ans m.spawner x hx).within
  | tick world turns =>
    refine ⟨?_, rfl⟩
    rw [ModuleEvent.op, entriesReceived, spawnerShows_onSpawner]
    exact receives_nothing fun x hx => (spawnTick_orderly world turns m.spawner x hx).within

end Receipts

/-! ### While the messages come in -/

/-- The generation is under way: the module holds its id, every entry received has been spawned,
skipped by itself or is queued, and the spawner and the panel have what the messages bring. -/
structure Arriving (generationId : String) (ms : List ServerMessage) (os : List ModuleAction)
    (ed : Editor) : Prop where
  routed : Routed ed.forge
  active : ed.forge.activeGenerationId = generationId
  attended : Attended (spawnerShows os) ed.forge.spawner.pendingEntries
  received : entriesReceived os = ms.flatMap ServerMessage.assets
  counts : ed.panel.counts = ms.foldl count (0, 0)

/-- The generation has been completed: the module has let it go, the spawner drains it, and the
panel is idle. -/
structure Arrived (ms : List ServerMessage) (os : List ModuleAction) (ed : Editor) : Prop where
  draining : Draining (spawnerShows os) ed.forge
  received : entriesReceived os = ms.flatMap ServerMessage.assets
  counts : ed.panel.counts = ms.foldl count (0, 0)
  idle : ed.panel.state = .connectedIdle

section Phases

variable {E : Engine} {T : TextFunctions} {generationId : String} {ms : List ServerMessage}
  {os : List ModuleAction} {ed : Editor}

/-- A call of the spawner attends to a generation that stays active. -/
theorem onSpawner_attended {m : EditorModule} {shown : List SpawnAction} (chunk : Option String)
    {f : SpawnOp} (ha : Attends f) (hrouted : Routed m) (hid : m.activeGenerationId ≠ "")
    (hshown : Attended shown m.spawner.pendingEntries)
    (hrouted' : Routed (onSpawner chunk f m).1) :
    Attended (shown ++ (f m.spawner).2) (onSpawner chunk f m).1.spawner.pendingEntries := by
  have hopen : Open m.spawner := ⟨hrouted.consistent, (hrouted.held hid).1⟩
  rcases ha.drains m.spawner shown hopen hshown with ⟨-, hattended⟩ | ⟨hclosed, -⟩
  · exact hattended
  · exact absurd ((hrouted'.held hid).1.symm.trans hclosed) (by simp)

theorem handleMessage_attended {m : EditorModule} {shown : List SpawnAction}
    (requests : ℕ → RequestAnswers) (completed : ℕ → Bool) {message : ServerMessage}
    (hends : message.ends = false) (hrouted : Routed m) (hid : m.activeGenerationId ≠ "")
    (hshown : Attended shown m.spawner.pendingEntries)
    (hrouted' : Routed (handleMessage requests completed message m).1) :
    Attended (shown ++ spawnerShows (handleMessage requests completed message m).2)
      (handleMessage requests completed message m).1.spawner.pendingEntries := by
  have hnone : shown ++ spawnerShows [] = shown := List.append_nil shown
  cases message with
  | plan | invalid =>
    simp only [handleMessage, skip, hnone]
    exact hshown
  | complete | error => cases hends
  | chunk chunk =>
    by_cases hsame : sameId chunk.generationId m.activeGenerationId
    · simp only [handleMessage, handleChunk, if_pos hsame, spawnerShows_onSpawner] at hrouted' ⊢
      exact onSpawner_attended _ (enqueueEntries_attends _) hrouted hid hshown hrouted'
    · simp only [handleMessage, handleChunk, if_neg hsame, hnone]
      exact hshown

theorem op_routed (E : Engine) (event : ModuleEvent) {m : EditorModule} (h : Routed m) :
    Routed (event.op E m).1 := (op_routes E event m h).1

/-- **A message that ends nothing.** -/
theorem Arriving.frame (h : Arriving generationId ms os ed) (hid : generationId ≠ "")
    {data : Bytes} (requests : ℕ → RequestAnswers) (completed : ℕ → Bool)
    (hcarries : (parseServerMessage E data).carries generationId = true)
    (hends : (parseServerMessage E data).ends = false) :
    Arriving generationId (ms ++ [parseServerMessage E data])
      (os ++ (arrivalOp E T (.frame data requests completed) ed).2)
      (arrivalOp E T (.frame data requests completed) ed).1 := by
  have hshown : (arrivalOp E T (.frame data requests completed) ed).2 =
      (handleMessage requests completed (parseServerMessage E data) ed.forge).2 :=
    List.append_nil _
  have hrouted : Routed (handleMessage requests completed (parseServerMessage E data) ed.forge).1 :=
    op_routed E (.frame data requests completed) h.routed
  have hactive : ed.forge.activeGenerationId ≠ "" := by rwa [h.active]
  rw [hshown]
  constructor
  · exact hrouted
  · have hsame := handleMessage_active requests completed (parseServerMessage E data) ed.forge
    rw [hends, Bool.false_and, if_neg Bool.false_ne_true] at hsame
    exact hsame.trans h.active
  · rw [spawnerShows_append]
    exact handleMessage_attended requests completed hends h.routed hactive h.attended hrouted
  · rw [entriesReceived_append, h.received, List.flatMap_append,
      handleMessage_receives requests completed (by rwa [h.active])
        (h.routed.held hactive).1]
    simp
  · rw [List.foldl_append, ← h.counts]
    exact handleMessage_counts T ed.panel (parseServerMessage E data)

/-- **A callback or a tick.** -/
theorem Arriving.other (h : Arriving generationId ms os ed) (hid : generationId ≠ "")
    {event : ModuleEvent} (harrival : event.arrival = true) (hframe : event.data? = none) :
    Arriving generationId ms (os ++ (arrivalOp E T event ed).2) (arrivalOp E T event ed).1 := by
  have hshown : (arrivalOp E T event ed).2 = (event.op E ed.forge).2 := List.append_nil _
  have hrouted := op_routed E event h.routed
  have hactive : ed.forge.activeGenerationId ≠ "" := by rwa [h.active]
  obtain ⟨hreceived, hsame⟩ := spawnerEvent_receives E harrival hframe ed.forge
  rw [hshown]
  refine ⟨hrouted, hsame.trans h.active, ?_, ?_, ?_⟩
  · rw [spawnerShows_append]
    cases event with
    | start | cancel | closed => cases harrival
    | frame => cases hframe
    | loaded key ans =>
      simp only [ModuleEvent.op, spawnerShows_onSpawner] at hrouted ⊢
      exact onSpawner_attended none (loaded_attends key ans) h.routed hactive h.attended hrouted
    | tick world turns =>
      simp only [ModuleEvent.op, spawnerShows_onSpawner] at hrouted ⊢
      exact onSpawner_attended none (spawnTick_attends world turns) h.routed hactive h.attended
        hrouted
  · rw [entriesReceived_append, hreceived, List.append_nil]
    exact h.received
  · cases event with
    | start | cancel | closed => cases harrival
    | frame => cases hframe
    | loaded | tick => exact h.counts

/-- **The complete.** -/
theorem Arriving.complete (h : Arriving generationId ms os ed) (hid : generationId ≠ "")
    {data : Bytes} (requests : ℕ → RequestAnswers) (completed : ℕ → Bool)
    {complete : CompleteMessage} (hparse : parseServerMessage E data = .complete complete)
    (hsame : sameId complete.generationId generationId) :
    Arrived (ms ++ [.complete complete])
      (os ++ (arrivalOp E T (.frame data requests completed) ed).2)
      (arrivalOp E T (.frame data requests completed) ed).1 := by
  have hactive : ed.forge.activeGenerationId ≠ "" := by rwa [h.active]
  have hopen : Open ed.forge.spawner := ⟨h.routed.consistent, (h.routed.held hactive).1⟩
  have hends : (ModuleEvent.frame data requests completed).op E ed.forge =
      endActive false completed ed.forge := by
    simp only [ModuleEvent.op, hparse, handleMessage, handleComplete]
    rw [if_pos (by rwa [h.active])]
  have hshown : (arrivalOp E T (.frame data requests completed) ed).2 =
      (onSpawner none (endGeneration false completed) ed.forge).2 := by
    show (ModuleEvent.op E _ ed.forge).2 ++ [] = _
    rw [List.append_nil, hends]
    exact List.append_nil _
  have hdrains := (endGeneration_attends completed).drains ed.forge.spawner _ hopen h.attended
  rw [hshown]
  constructor
  · have hforge : (arrivalOp E T (.frame data requests completed) ed).1.forge =
        (endActive false completed ed.forge).1 := congrArg Prod.fst hends
    rw [hforge, spawnerShows_append, spawnerShows_onSpawner]
    exact ⟨rfl, (endGeneration_enrolls false completed ed.forge.spawner hopen.1).1, hdrains⟩
  · rw [entriesReceived_append, h.received, entriesReceived, spawnerShows_onSpawner,
      receives_nothing (endGeneration_within false completed ed.forge.spawner)]
    simp [ServerMessage.assets]
  · rw [List.foldl_append, ← h.counts]
    have hcounts := handleMessage_counts T ed.panel (parseServerMessage E data)
    rw [hparse] at hcounts
    exact (congrArg (fun message => (ed.panel.handleMessage T message).counts) hparse).trans hcounts
  · exact congrArg (fun message => (ed.panel.handleMessage T message).state) hparse

/-- **After the complete**, a callback or a tick. -/
theorem Arrived.other (h : Arrived ms os ed) {event : ModuleEvent}
    (harrival : event.arrival = true) (hframe : event.data? = none) :
    Arrived ms (os ++ (arrivalOp E T event ed).2) (arrivalOp E T event ed).1 := by
  have hshown : (arrivalOp E T event ed).2 = (event.op E ed.forge).2 := List.append_nil _
  have hstarts : event.starts = false := by
    cases event with
    | start | cancel | closed => cases harrival
    | frame | loaded | tick => rfl
  have hgoesOn := op_goesOn E hstarts h.draining
  obtain ⟨hreceived, -⟩ := spawnerEvent_receives E harrival hframe ed.forge
  have hpanel : (arrivalOp E T event ed).1.panel = ed.panel := by
    cases event with
    | start | cancel | closed => cases harrival
    | frame => cases hframe
    | loaded | tick => rfl
  rw [hshown]
  refine ⟨?_, ?_, ?_, ?_⟩
  · rw [spawnerShows_append]
    exact hgoesOn.1
  · rw [entriesReceived_append, hreceived, List.append_nil]
    exact h.received
  · rw [hpanel]
    exact h.counts
  · rw [hpanel]
    exact h.idle

/-! ### Runs -/

/-- **While no message ends the generation.** -/
theorem run_arriving {events : List ModuleEvent} {ed' : Editor} {os' : List ModuleAction}
    (hid : generationId ≠ "") (h : Arriving generationId ms os ed)
    (harrival : ∀ event ∈ events, event.arrival = true)
    (hmessages : ∀ data ∈ framesOf events, (parseServerMessage E data).carries generationId = true ∧
      (parseServerMessage E data).ends = false)
    (hrun : exec (toStep (arrivalOp E T)) ed events = some (ed', os')) :
    Arriving generationId (ms ++ (framesOf events).map (parseServerMessage E)) (os ++ os') ed' := by
  induction events generalizing ms os ed os' with
  | nil =>
    cases hrun
    rw [List.append_nil]
    exact (List.append_nil ms).symm ▸ h
  | cons event events ih =>
    obtain ⟨ed₁, o, os₁, hstep, hrest, rfl⟩ := exec_cons_inv hrun
    have hop : arrivalOp E T event ed = (ed₁, o) := Option.some.inj hstep
    have hnext : ∀ e ∈ events, e.arrival = true := fun e he => harrival e (.tail _ he)
    cases hdata : event.data? with
    | none =>
      have hframes : framesOf (event :: events) = framesOf events :=
        List.filterMap_cons_none hdata
      have hother := h.other (E := E) (T := T) hid (harrival event List.mem_cons_self) hdata
      rw [hop] at hother
      rw [hframes] at hmessages ⊢
      have hlater := ih hother hnext hmessages hrest
      rwa [List.append_assoc] at hlater
    | some data =>
      have hframes : framesOf (event :: events) = data :: framesOf events :=
        List.filterMap_cons_some hdata
      rw [hframes] at hmessages ⊢
      obtain ⟨⟨hcarries, hends⟩, hrestMessages⟩ := List.forall_mem_cons.mp hmessages
      cases event with
      | frame data' requests completed =>
        cases hdata
        have hframe := h.frame (T := T) hid requests completed hcarries hends
        rw [hop] at hframe
        have hlater := ih hframe hnext hrestMessages hrest
        rwa [List.append_assoc, List.append_assoc] at hlater
      | start | cancel | closed | loaded | tick => cases hdata

theorem run_arrived {events : List ModuleEvent} {ed' : Editor} {os' : List ModuleAction}
    (h : Arrived ms os ed) (harrival : ∀ event ∈ events, event.arrival = true)
    (hframes : ∀ event ∈ events, event.data? = none)
    (hrun : exec (toStep (arrivalOp E T)) ed events = some (ed', os')) :
    Arrived ms (os ++ os') ed' := by
  induction events generalizing os ed os' with
  | nil =>
    cases hrun
    rwa [List.append_nil]
  | cons event events ih =>
    obtain ⟨ed₁, o, os₁, hstep, hrest, rfl⟩ := exec_cons_inv hrun
    have hother := h.other (E := E) (T := T) (harrival event List.mem_cons_self)
      (hframes event List.mem_cons_self)
    rw [Option.some.inj hstep] at hother
    have hlater := ih hother (fun e he => harrival e (.tail _ he))
      (fun e he => hframes e (.tail _ he)) hrest
    rwa [List.append_assoc] at hlater

/-- **A stream that is completed**: every frame is handled, the complete last. -/
theorem run_arrives {events : List ModuleEvent} {ed' : Editor} {os' : List ModuleAction}
    {body : List Bytes} {last : Bytes} {complete : CompleteMessage} (hid : generationId ≠ "")
    (h : Arriving generationId ms os ed) (harrival : ∀ event ∈ events, event.arrival = true)
    (hframes : framesOf events = body ++ [last])
    (hbody : ∀ data ∈ body, (parseServerMessage E data).carries generationId = true ∧
      (parseServerMessage E data).ends = false)
    (hlast : parseServerMessage E last = .complete complete)
    (hsame : sameId complete.generationId generationId)
    (hrun : exec (toStep (arrivalOp E T)) ed events = some (ed', os')) :
    Arrived (ms ++ (body ++ [last]).map (parseServerMessage E)) (os ++ os') ed' := by
  obtain ⟨before, rest, rfl, hbefore, hrest⟩ := List.filterMap_eq_append_iff.mp hframes
  obtain ⟨quiet, event, after, rfl, hquiet, hdata, hafter⟩ := List.filterMap_eq_cons_iff.mp hrest
  have hnone : framesOf quiet = [] := List.filterMap_eq_nil_iff.mpr hquiet
  have hframesBefore : framesOf (before ++ quiet) = body := by
    rw [framesOf, List.filterMap_append, hbefore]
    exact (congrArg (body ++ ·) hnone).trans (List.append_nil body)
  rw [← List.append_assoc] at hrun harrival
  obtain ⟨ed₁, os₁, os₂, hrun₁, hrun₂, rfl⟩ := exec_append_inv hrun
  obtain ⟨ed₂, o, os₃, hstep, hrun₃, rfl⟩ := exec_cons_inv hrun₂
  -- up to the complete, at the complete, and after it
  have harriving := run_arriving hid h (fun e he => harrival e (List.mem_append_left _ he))
    (by rwa [hframesBefore]) hrun₁
  cases event with
  | frame data requests completed =>
    cases hdata
    have hcomplete := harriving.complete (T := T) hid requests completed hlast hsame
    rw [Option.some.inj hstep, hframesBefore] at hcomplete
    have harrived := run_arrived hcomplete
      (fun e he => harrival e (List.mem_append_right _ (.tail _ he)))
      (List.filterMap_eq_nil_iff.mp hafter) hrun₃
    rw [List.map_append, List.map_singleton, hlast, ← List.append_assoc]
    rwa [List.append_assoc (os ++ os₁), List.append_assoc os] at harrived
  | start | cancel | closed | loaded | tick => cases hdata

end Phases

/-! ### The press of Generate -/

/-- **A request that is sent** begins a generation, of which nothing has come in yet. -/
theorem onGenerateClicked_arriving {E : Engine} {T : TextFunctions} {ans : StartAnswers}
    {ed : Editor} {events : List ModuleEvent} {past : List ModuleAction}
    (hreach : exec (toStep (ModuleEvent.op E)) .start events = some (ed.forge, past))
    {generationId prompt : String} {seed : Option ℤ} {bounds : WireBounds}
    (hsent : .sentGenerate generationId prompt seed bounds ∈ (onGenerateClicked T ans ed).2) :
    generationId ≠ "" ∧ Arriving generationId [] [] (onGenerateClicked T ans ed).1 := by
  obtain ⟨rfl, -, -⟩ := onGenerateClicked_sent hsent
  rw [onGenerateClicked, panelStartGeneration_shows] at hsent
  have hprompt : T.trimStartAndEnd ed.panel.promptText ≠ "" := by
    intro hempty
    rw [if_pos hempty] at hsent
    cases hsent
  rw [if_neg hprompt] at hsent
  have hconnected : ans.connected = true := by
    by_contra hclosed
    rw [startGeneration, if_neg hclosed] at hsent
    cases hsent
  rcases panelStartGeneration_cases (T := T) (parseSeedField T ed.panel) hconnected ed with
    ⟨hempty, -⟩ | ⟨-, hactive, -, hcounts⟩
  · exact absurd hempty hprompt
  have hforge : (onGenerateClicked T ans ed).1.forge =
      (startGeneration (T.trimStartAndEnd ed.panel.promptText) (parseSeedField T ed.panel)
        (parseAreaField T ed.panel) ans ed.forge).1 := by
    rw [onGenerateClicked]
    simp only [panelStartGeneration, if_neg hprompt]
    split <;> rfl
  have hrouted : Routed ed.forge := (exec_meets routes_composable (op_routes E) hreach
    routed_start).1
  refine ⟨ans.generationId_ne, ?_, hactive, ?_, rfl, hcounts⟩
  · rw [hforge]
    exact op_routed E (.start _ _ _ ans) hrouted
  · have hpending : (onGenerateClicked T ans ed).1.forge.spawner.numPendingEntries = 0 := by
      rw [hforge, startGeneration, if_pos hconnected]
      exact openGeneration_pending ans.generationId (some (getOrLoadManifest ans.manifest))
        (endGeneration true ans.completed ed.forge.spawner).1
    rw [pendingEntries_eq_nil hpending]
    exact attended_nil

/-! ### The messages of a run -/

/-- What the panel and the module need of a message is what it is parsed as. -/
def Conveys (generationId : String) : Message → ServerMessage → Prop
  | .plan p, .plan m => m.generationId = generationId ∧ m.totalAssets = p.totalAssets
  | .chunk c, .chunk m =>
    m.generationId = generationId ∧ m.assets = c.assets.elems.map AssetEntry.received
  | .complete _, .complete m => m.generationId = generationId
  | _, _ => False

/-- Every message of a stream has its keys apart. -/
theorem keysApart_stream {manifest : TMap WireManifestEntry}
    (hkeys : ∀ p ∈ manifest.entries, p.1 ≠ "") {man : Manifest} (hman : Advertised manifest man)
    {recipe : Recipe} (hvalid : ValidRecipe man recipe)
    {entries : List AetherForge.AssetEntry} (hknown : ∀ e ∈ entries, (man.get? e.category).isSome)
    (o : Orchestrator) (req : Generate) (seed elapsed llmElapsed : ℤ) :
    ∀ m ∈ streamMessages o req recipe seed entries elapsed llmElapsed, KeysApart m := by
  intro m hm
  rw [streamMessages, chunkMessages_eq, List.mem_cons, List.mem_append, List.mem_singleton] at hm
  rcases hm with rfl | hchunk | rfl
  · exact keysApart_of_advertised hkeys hman hvalid req seed entries
  · obtain ⟨c, hc, rfl⟩ := List.mem_map.mp hchunk
    intro a ha
    have hmem : a ∈ entries := by
      rw [← chunksOf_assets o req entries]
      exact List.mem_flatMap.mpr ⟨c, hc, ha⟩
    obtain ⟨w, hw⟩ := hman _ (hknown a hmem)
    exact hkeys _ hw
  · trivial

/-- **Every message of a stream** is parsed as what it says. -/
theorem conveys_of_emitted {E : Engine} {F : NumberFormat} (hE : E.Lawful F)
    {generationId : String} (hid : generationId ≠ "") {m : Message}
    (hemitted : Emitted generationId m) (herror : ∀ e, m ≠ .error e) (hkeys : KeysApart m)
    (hfloat : m.EachFloat F.Writes) :
    Conveys generationId m (parseServerMessage E (marshal F m)) := by
  obtain ⟨root, hdata, hroot⟩ := hE.reads m hfloat
  cases m with
  | plan p =>
    obtain ⟨received, hparse, -⟩ := parse_plan_rounded hE hdata hemitted hid hkeys hroot
    rw [hparse]
    exact ⟨hemitted.2.2.1, rfl⟩
  | chunk c =>
    have hreads : (Message.chunk c).EachFloat (ReadsBack F.number) := hfloat.imp fun _ hq => hq.1
    have hagrees := parse_chunk hE hdata hemitted hid hkeys hreads hroot
    cases hparse : parseServerMessage E (marshal F (.chunk c)) with
    | chunk m =>
      rw [hparse] at hagrees
      cases hagrees
      exact ⟨hemitted.2.2, rfl⟩
    | plan | complete | error | invalid =>
      rw [hparse] at hagrees
      cases hagrees
  | complete c =>
    have hagrees := parse_complete hE hdata hemitted hid hroot
    cases hparse : parseServerMessage E (marshal F (.complete c)) with
    | complete m =>
      rw [hparse] at hagrees
      cases hagrees
      exact hemitted.2.2.1
    | plan | chunk | error | invalid =>
      rw [hparse] at hagrees
      cases hagrees
  | error e => exact absurd rfl (herror e)
  | hello | generate | cancel => cases hemitted

/-- The entries of a message. -/
def assetsOf : Message → List AetherForge.AssetEntry
  | .chunk c => c.assets.elems
  | _ => []

section Conveyed

variable {generationId : String} {m' : ServerMessage}

theorem Conveys.plan {p : Plan} (h : Conveys generationId (.plan p) m') :
    ∃ m, m' = .plan m ∧ m.generationId = generationId ∧ m.totalAssets = p.totalAssets := by
  cases m' with
  | plan m => exact ⟨m, rfl, h⟩
  | chunk | complete | error | invalid => cases h

theorem Conveys.chunk {c : Chunk} (h : Conveys generationId (.chunk c) m') :
    ∃ m, m' = .chunk m ∧ m.generationId = generationId ∧
      m.assets = c.assets.elems.map AssetEntry.received := by
  cases m' with
  | chunk m => exact ⟨m, rfl, h⟩
  | plan | complete | error | invalid => cases h

theorem Conveys.complete {c : Complete} (h : Conveys generationId (.complete c) m') :
    ∃ m, m' = .complete m ∧ m.generationId = generationId := by
  cases m' with
  | complete m => exact ⟨m, rfl, h⟩
  | plan | chunk | error | invalid => cases h

/-- A message that conveys another carries its generation and its entries. -/
theorem Conveys.brings {m : Message} (h : Conveys generationId m m') :
    m'.carries generationId = true ∧ m'.ends = m.complete?.isSome ∧
      m'.assets = (assetsOf m).map AssetEntry.received := by
  cases m with
  | plan p =>
    obtain ⟨m, rfl, hid, -⟩ := h.plan
    exact ⟨decide_eq_true (congrArg foldKey hid), rfl, rfl⟩
  | chunk c =>
    obtain ⟨m, rfl, hid, hassets⟩ := h.chunk
    exact ⟨decide_eq_true (congrArg foldKey hid), rfl, hassets⟩
  | complete c =>
    obtain ⟨m, rfl, hid⟩ := h.complete
    exact ⟨decide_eq_true (congrArg foldKey hid), rfl, rfl⟩
  | error | hello | generate | cancel => cases m' <;> cases h

end Conveyed

/-- Counting chunks, as long as the total fits. -/
theorem count_chunks {total received : ℤ} {ms : List ServerMessage}
    (hms : ∀ m ∈ ms, ∃ c, m = .chunk c) (hlo : 0 ≤ received)
    (hhi : received + (ms.flatMap ServerMessage.assets).length < 2 ^ 31) :
    ms.foldl count (total, received) =
      (total, received + (ms.flatMap ServerMessage.assets).length) := by
  induction ms generalizing received with
  | nil => simp
  | cons m ms ih =>
    obtain ⟨⟨c, rfl⟩, hrest⟩ := List.forall_mem_cons.mp hms
    rw [List.flatMap_cons, List.length_append, Nat.cast_add] at hhi ⊢
    have hwrap : wrap32 (received + c.assets.length) = received + c.assets.length :=
      wrap32_of_inInt32 ⟨by omega, by simp only [ServerMessage.assets] at hhi; omega⟩
    rw [List.foldl_cons, count, hwrap, ih hrest (by omega)]
    · rw [ServerMessage.assets, add_assoc]
    · rw [ServerMessage.assets] at hhi
      omega

section Streams

variable {generationId : String} {p : Plan} {cs : List Chunk} {c : Complete}
  {heard : Message → ServerMessage}

/-- What is parsed brings the entries of what was sent. -/
theorem heard_assets {ms : List Message} (hheard : ∀ m ∈ ms, Conveys generationId m (heard m)) :
    (ms.map heard).flatMap ServerMessage.assets =
      (ms.flatMap assetsOf).map AssetEntry.received := by
  have hassets : ∀ m ∈ ms, (heard m).assets = (assetsOf m).map AssetEntry.received :=
    fun m hm => (hheard m hm).brings.2.2
  rw [List.flatMap_map, List.flatMap_congr hassets, ← List.map_flatMap]

/-- The entries of a plan and chunks are those of the chunks. -/
theorem opening_assets (p : Plan) (cs : List Chunk) :
    (Message.plan p :: cs.map .chunk).flatMap assetsOf =
      cs.flatMap fun chunk => chunk.assets.elems :=
  List.flatMap_map Message.chunk assetsOf cs

/-- Neither ends the generation. -/
theorem opening_ends {m : Message} (hm : m ∈ Message.plan p :: cs.map .chunk) :
    m.complete?.isSome = false := by
  rcases List.mem_cons.mp hm with rfl | hchunk
  · rfl
  · obtain ⟨chunk, -, rfl⟩ := List.mem_map.mp hchunk
    rfl

/-- What a plan and chunks count to. -/
theorem opening_counts (hheard : ∀ m ∈ Message.plan p :: cs.map .chunk,
      Conveys generationId m (heard m))
    (hfits : ((cs.flatMap fun chunk => chunk.assets.elems).length : ℤ) < 2 ^ 31) :
    ((Message.plan p :: cs.map .chunk).map heard).foldl count (0, 0) =
      (p.totalAssets, ((cs.flatMap fun chunk => chunk.assets.elems).length : ℤ)) := by
  obtain ⟨plan, hplan, -, htotal⟩ := (hheard _ List.mem_cons_self).plan
  have hchunks : ∀ m ∈ (cs.map Message.chunk).map heard, ∃ chunk, m = .chunk chunk := by
    intro m hm
    obtain ⟨_, hmem, rfl⟩ := List.mem_map.mp hm
    obtain ⟨chunk, hchunk, rfl⟩ := List.mem_map.mp hmem
    obtain ⟨m, hm, -⟩ := (hheard (.chunk chunk) (.tail _ (List.mem_map_of_mem hchunk))).chunk
    exact ⟨m, hm⟩
  have hlength : (((cs.map Message.chunk).map heard).flatMap ServerMessage.assets).length =
      (cs.flatMap fun chunk => chunk.assets.elems).length := by
    rw [heard_assets (fun m hm => hheard m (.tail _ hm)), List.length_map]
    exact congrArg List.length (List.flatMap_map Message.chunk assetsOf cs)
  rw [List.map_cons, List.foldl_cons, hplan, count, count_chunks hchunks le_rfl
    (by rwa [hlength, zero_add]), hlength, zero_add, htotal]

/-- The entries that a stream brings are those of its chunks. -/
theorem stream_assets (hheard : ∀ m ∈ Message.plan p :: (cs.map .chunk ++ [.complete c]),
      Conveys generationId m (heard m)) :
    ((Message.plan p :: (cs.map .chunk ++ [.complete c])).map heard).flatMap ServerMessage.assets =
      (cs.flatMap fun chunk => chunk.assets.elems).map AssetEntry.received := by
  rw [heard_assets hheard, ← List.cons_append, List.flatMap_append, opening_assets]
  simp [assetsOf]

/-- A complete counts nothing. -/
theorem stream_counts (hheard : ∀ m ∈ Message.plan p :: (cs.map .chunk ++ [.complete c]),
      Conveys generationId m (heard m))
    (hfits : ((cs.flatMap fun chunk => chunk.assets.elems).length : ℤ) < 2 ^ 31) :
    ((Message.plan p :: (cs.map .chunk ++ [.complete c])).map heard).foldl count (0, 0) =
      (p.totalAssets, ((cs.flatMap fun chunk => chunk.assets.elems).length : ℤ)) := by
  rw [← List.cons_append] at hheard ⊢
  obtain ⟨complete, hcomplete, -⟩ :=
    (hheard (.complete c) (List.mem_append_right _ (List.mem_singleton_self _))).complete
  rw [List.map_append, List.foldl_append, opening_counts
    (fun m hm => hheard m (List.mem_append_left _ hm)) hfits, List.map_singleton, hcomplete]
  rfl

variable {E : Engine} {T : TextFunctions} {F : NumberFormat} {ed₀ ed : Editor}
  {events : List ModuleEvent} {os : List ModuleAction}

/-- **The beginning of a stream that comes in.** -/
theorem opening_arrives (hid : generationId ≠ "") (hstart : Arriving generationId [] [] ed₀)
    (harrival : ∀ event ∈ events, event.arrival = true)
    (hframes : framesOf events = (Message.plan p :: cs.map .chunk).map (marshal F))
    (hheard : ∀ m ∈ Message.plan p :: cs.map .chunk,
      Conveys generationId m (parseServerMessage E (marshal F m)))
    (hfits : ((cs.flatMap fun chunk => chunk.assets.elems).length : ℤ) < 2 ^ 31)
    (hrun : exec (toStep (arrivalOp E T)) ed₀ events = some (ed, os)) :
    entriesReceived os = (cs.flatMap fun chunk => chunk.assets.elems).map AssetEntry.received ∧
      ed.panel.counts =
        (p.totalAssets, ((cs.flatMap fun chunk => chunk.assets.elems).length : ℤ)) := by
  have harriving := run_arriving hid hstart harrival (fun data hdata => ?_) hrun
  · rw [hframes, List.nil_append, List.map_map] at harriving
    refine ⟨harriving.received.trans ?_, harriving.counts.trans (opening_counts hheard hfits)⟩
    exact (heard_assets hheard).trans (congrArg _ (opening_assets p cs))
  · rw [hframes] at hdata
    obtain ⟨m, hm, rfl⟩ := List.mem_map.mp hdata
    obtain ⟨hcarries, hends, -⟩ := (hheard m hm).brings
    exact ⟨hcarries, hends.trans (opening_ends hm)⟩

/-- **A stream that comes in** as a whole. -/
theorem stream_arrives (hid : generationId ≠ "") (hstart : Arriving generationId [] [] ed₀)
    (harrival : ∀ event ∈ events, event.arrival = true)
    (hframes : framesOf events =
      (Message.plan p :: (cs.map .chunk ++ [.complete c])).map (marshal F))
    (hheard : ∀ m ∈ Message.plan p :: (cs.map .chunk ++ [.complete c]),
      Conveys generationId m (parseServerMessage E (marshal F m)))
    (hfits : ((cs.flatMap fun chunk => chunk.assets.elems).length : ℤ) < 2 ^ 31)
    (hrun : exec (toStep (arrivalOp E T)) ed₀ events = some (ed, os)) :
    entriesReceived os = (cs.flatMap fun chunk => chunk.assets.elems).map AssetEntry.received ∧
      ed.panel.counts =
        (p.totalAssets, ((cs.flatMap fun chunk => chunk.assets.elems).length : ℤ)) ∧
      Draining (spawnerShows os) ed.forge ∧ ed.panel.state = .connectedIdle := by
  obtain ⟨complete, hcomplete, hsame⟩ := (hheard (.complete c) (by simp)).complete
  have hsplit : framesOf events = (Message.plan p :: cs.map .chunk).map (marshal F) ++
      [marshal F (.complete c)] := by
    rw [hframes, ← List.cons_append, List.map_append, List.map_singleton]
  have harrived := run_arrives hid hstart harrival hsplit (fun data hdata => ?_) hcomplete
    (congrArg foldKey hsame) hrun
  · rw [← hsplit, hframes, List.nil_append, List.map_map] at harrived
    exact ⟨harrived.received.trans (stream_assets hheard),
      harrived.counts.trans (stream_counts hheard hfits), harrived.draining, harrived.idle⟩
  · obtain ⟨m, hm, rfl⟩ := List.mem_map.mp hdata
    obtain ⟨hcarries, hends, -⟩ := (hheard m (by
      rw [← List.cons_append]
      exact List.mem_append_left _ hm)).brings
    exact ⟨hcarries, hends.trans (opening_ends hm)⟩

end Streams

/-! ### The whole way -/

/-- **What is heard of a generation** that got as far as a plan: a part of one stream, every message
of which is parsed as what it says. -/
theorem heard_stream {E : Engine} {F : NumberFormat} (hE : E.Lawful F) {D : Draws}
    {o : Orchestrator} (ho : o.place = place D) {manifest : TMap WireManifestEntry}
    (hkeys : ∀ p ∈ manifest.entries, p.1 ≠ "") {generationId prompt : String}
    (hid : generationId ≠ "") {seed : Option ℤ} {bounds : WireBounds}
    {evs : List (Event Eff Resp)} {q : Run Unit}
    (ht : Trace (run o (requestOf generationId prompt seed bounds)) evs q)
    (hevs : ∀ ev ∈ evs, InRange ev)
    (hmanifest : ∀ man, ⟨Eff.storeSnapshot, man⟩ ∈ evs → Advertised manifest man)
    (hfloat : ∀ m ∈ sentMessages evs, m.EachFloat F.Writes)
    {m₀ : Message} (hm₀ : m₀ ∈ sentMessages evs) (hne : ∀ e, m₀ ≠ .error e) :
    ∃ man recipe placed entries elapsed llmElapsed, ⟨Eff.storeSnapshot, man⟩ ∈ evs ∧
      ⟨Eff.llmReturn, .ok (some recipe)⟩ ∈ evs ∧
      SeedFor (requestOf generationId prompt seed bounds) placed ∧
      place D (clampCounts recipe) placed bounds.sent man = .ok entries ∧
      sentMessages evs <+: streamMessages o (requestOf generationId prompt seed bounds)
        (clampCounts recipe) placed entries elapsed llmElapsed ∧
      (∀ m ∈ sentMessages evs, Conveys generationId m (parseServerMessage E (marshal F m))) ∧
      (entries.length : ℤ) < 2 ^ 31 := by
  obtain ⟨man, recipe, placed, entries, elapsed, llmElapsed, hman, hrecipe, hvalid, hplaced, hplace,
    hpre⟩ := exists_stream_of_mem ht hm₀ hne
  rw [ho] at hplace
  let req := requestOf generationId prompt seed bounds
  have hapart := keysApart_stream hkeys (hmanifest man hman) (clampCounts_valid hvalid)
    (place_known hplace) o req placed elapsed llmElapsed
  refine ⟨man, recipe, placed, entries, elapsed, llmElapsed, hman, hrecipe, hplaced, hplace, hpre,
    fun m hm => ?_, ?_⟩
  · refine conveys_of_emitted hE hid (run_emits o req ho evs q hevs ht m hm) ?_
      (hapart m (hpre.subset hm)) (hfloat m hm)
    rintro e rfl
    have herror := hpre.subset hm
    rw [streamMessages, chunkMessages] at herror
    simp at herror
  · -- the plan announces the number of entries
    obtain ⟨ms, hms⟩ : ∃ ms, sentMessages evs =
        .plan (planMessage req placed (clampCounts recipe) entries) :: ms := by
      cases hsent : sentMessages evs with
      | nil =>
        rw [hsent] at hm₀
        cases hm₀
      | cons m ms =>
        rw [hsent, streamMessages, List.cons_prefix_cons] at hpre
        exact ⟨ms, by rw [hpre.1]⟩
    have hplan := run_emits o req ho evs q hevs ht
      (.plan (planMessage req placed (clampCounts recipe) entries))
      (by
        show _ ∈ sentMessages evs
        rw [hms]
        exact List.mem_cons_self)
    exact hplan.2.2.2.1.2

/-- **What is placed arrives.**  A request that a press of Generate sends is run by the server,
which hands over a complete.  In every order in which the frames come in, in sequence, among load
callbacks and ticks, and once the complete has been handled: the spawner has received exactly the
entries that were placed, in their order, and each of them has been spawned, skipped by itself or is
queued; the panel has counted them all, and is idle. -/
theorem placement_arrives {E : Engine} {F : NumberFormat} (hE : E.Lawful F) (T : TextFunctions)
    {D : Draws} {o : Orchestrator} (ho : o.place = place D)
    {manifest : TMap WireManifestEntry} (hkeys : ∀ p ∈ manifest.entries, p.1 ≠ "")
    {ans : StartAnswers} {ed₀ : Editor} {events₀ : List ModuleEvent} {past₀ : List ModuleAction}
    (hreach : exec (toStep (ModuleEvent.op E)) .start events₀ = some (ed₀.forge, past₀))
    {generationId prompt : String} {seed : Option ℤ} {bounds : WireBounds}
    (hsent : .sentGenerate generationId prompt seed bounds ∈ (onGenerateClicked T ans ed₀).2)
    {evs : List (Event Eff Resp)} {q : Run Unit}
    (ht : Trace (run o (requestOf generationId prompt seed bounds)) evs q)
    (hevs : ∀ ev ∈ evs, InRange ev)
    (hmanifest : ∀ man, ⟨Eff.storeSnapshot, man⟩ ∈ evs → Advertised manifest man)
    (hfloat : ∀ m ∈ sentMessages evs, m.EachFloat F.Writes)
    {c : Complete} (hc : .complete c ∈ sentMessages evs) {events : List ModuleEvent}
    (harrival : ∀ event ∈ events, event.arrival = true)
    (hframes : framesOf events = (sentMessages evs).map (marshal F))
    {ed : Editor} {os : List ModuleAction}
    (hrun : exec (toStep (arrivalOp E T)) (onGenerateClicked T ans ed₀).1 events = some (ed, os)) :
    ∃ man recipe placed entries, ⟨Eff.storeSnapshot, man⟩ ∈ evs ∧
      ⟨Eff.llmReturn, .ok (some recipe)⟩ ∈ evs ∧
      SeedFor (requestOf generationId prompt seed bounds) placed ∧
      place D (clampCounts recipe) placed bounds.sent man = .ok entries ∧
      entriesReceived os = entries.map AssetEntry.received ∧
      Draining (spawnerShows os) ed.forge ∧
      ed.panel.counts = ((entries.length : ℤ), (entries.length : ℤ)) ∧
      ed.panel.state = .connectedIdle := by
  obtain ⟨hid, hstart⟩ := onGenerateClicked_arriving hreach hsent
  obtain ⟨man, recipe, placed, entries, elapsed, llmElapsed, hman, hrecipe, hplaced, hplace, hpre,
    hheard, hfits⟩ := heard_stream hE ho hkeys hid ht hevs hmanifest hfloat hc
      (fun e he => by cases he)
  obtain ⟨rfl, hms⟩ := eq_stream_of_complete_mem hc hpre
  have hassets := chunksOf_assets o (requestOf generationId prompt seed bounds) entries
  rw [streamMessages, chunkMessages_eq] at hms
  rw [hms] at hframes hheard
  obtain ⟨hreceived, hcounts, hdraining, hidle⟩ :=
    stream_arrives hid hstart harrival hframes hheard (by rwa [hassets]) hrun
  rw [hassets] at hreceived hcounts
  exact ⟨man, recipe, placed, entries, hman, hrecipe, hplaced, hplace, hreceived, hdraining,
    hcounts, hidle⟩

/-- The editor knows a shrub. -/
def shrubManifest : TMap ManifestAssetEntry where
  entries := [("shrub", ⟨some "/Game/Shrub", 1, false, false, "Shrub"⟩)]
  distinct := by decide

def shrubStart : StartAnswers := { gladeStart with manifest := ⟨some shrubManifest, none⟩ }

/-- The region of the area that an empty field stands for. -/
def shrubBounds : WireBounds := ⟨⟨-3500, -3500⟩, ⟨3500, 3500⟩⟩

theorem boundsForArea_default : boundsForArea DefaultAreaMeters = shrubBounds := by
  have hclamped : max 10 (min DefaultAreaMeters 1000) * 100 = ((7000 : ℤ) : ℚ) := by
    rw [DefaultAreaMeters]
    norm_num
  have hround : Binary64.round ((7000 : ℤ) : ℚ) = (7000 : ℤ) :=
    Binary64.round_intCast (by norm_num)
  rw [boundsForArea, hclamped, hround, shrubBounds]
  norm_num

/-- The server knows shrubs of four units. -/
def shrubCategories : Manifest := (GoMap.make ∅).set "shrub" ⟨4, true, true, "Shrub"⟩

theorem advertised_shrub : Advertised advertisedMeadow shrubCategories := by
  intro k hk
  by_cases hshrub : k = "shrub"
  · subst hshrub
    exact ⟨_, List.mem_cons_self⟩
  · rw [shrubCategories, GoMap.get?_set_of_ne _ _ hshrub] at hk
    cases hk

def shrubRequest : Generate := requestOf "gen-0123abcd" "a glade" (some 7) shrubBounds

/-- What the server does about it. -/
def shrubPlay : List (Event Eff Resp) :=
  (play (steadyAnswers shrubCategories gladeRecipe) [] (run (.new evenDraws) shrubRequest)).1

def shrubFrames : List Bytes := (sentMessages shrubPlay).map (marshal halvesFormat)

/-- After each frame the spawner ticks, and a load of the shrub is called back. -/
def shrubEvents : List ModuleEvent :=
  shrubFrames.flatMap fun data =>
    [.frame data (fun _ => loadLater) fun _ => true, treeTick,
      .loaded "shrub" ⟨some (.staticMesh 0), none⟩]

theorem shrubEvents_frames : framesOf shrubEvents = shrubFrames ∧
    ∀ event ∈ shrubEvents, event.arrival = true := by
  unfold shrubEvents
  generalize shrubFrames = frames
  induction frames with
  | nil => exact ⟨rfl, fun _ h => nomatch h⟩
  | cons data frames ih =>
    rw [List.flatMap_cons, framesOf, List.filterMap_append]
    refine ⟨congrArg (data :: ·) ih.1, fun event hevent => ?_⟩
    rcases List.mem_append.mp hevent with hfirst | hrest
    · simp only [List.mem_cons, List.not_mem_nil, or_false] at hfirst
      rcases hfirst with rfl | rfl | rfl <;> rfl
    · exact ih.2 event hrest

theorem shrubStart_sent : .sentGenerate "gen-0123abcd" "a glade" (some 7) shrubBounds ∈
    (onGenerateClicked decimalTexts shrubStart (gladeEditor 7)).2 := by
  rw [onGenerateClicked, gladeEditor_field (by decide), panelStartGeneration_shows,
    ← boundsForArea_default]
  exact List.mem_append_right _ (List.mem_append_right _ (List.mem_singleton.mpr rfl))

theorem placement_arrives_shrub :
    ∃ ed os, ∃ entries : List AetherForge.AssetEntry,
      exec (toStep (arrivalOp plainEngine decimalTexts))
        (onGenerateClicked decimalTexts shrubStart (gladeEditor 7)).1 shrubEvents = some (ed, os) ∧
      entries.length = 1 ∧ entriesReceived os = entries.map AssetEntry.received ∧
      Draining (spawnerShows os) ed.forge ∧ ed.forge.spawner.activeTransaction = false ∧
      ed.panel.counts = (1, 1) ∧ ed.panel.state = .connectedIdle := by
  have htrace : Trace (run (.new evenDraws) shrubRequest) shrubPlay (.ret ()) := trace_play _ [] _
  have hfits : (sentMessages shrubPlay).all gladeMessage = true := by decide +kernel
  have hcomplete : ⟨Version, TypeComplete, "gen-0123abcd", ⟨1, 0, 0⟩⟩ ∈
      (sentMessages shrubPlay).filterMap Message.complete? := by decide +kernel
  have hkeys : ∀ p ∈ advertisedMeadow.entries, p.1 ≠ "" := by decide +kernel
  have hreach : exec (toStep (ModuleEvent.op plainEngine)) .start [] =
      some ((gladeEditor 7).forge, []) := rfl
  obtain ⟨m, hm, heq⟩ := List.mem_filterMap.mp hcomplete
  obtain ⟨ed, os, hrun⟩ := exec_toStep (arrivalOp plainEngine decimalTexts)
    (onGenerateClicked decimalTexts shrubStart (gladeEditor 7)).1 shrubEvents
  cases m <;> cases heq
  obtain ⟨_, _, _, entries, _, _, _, _, hreceived, hdraining, hcounts, hidle⟩ :=
    placement_arrives (D := evenDraws) (plainEngine_lawful halvesFormat) decimalTexts rfl hkeys
      hreach shrubStart_sent htrace (inRange_play (by decide +kernel) gladeRecipe _)
      (fun man hman => snapshot_play hman ▸ advertised_shrub)
      (fun m hm => (gladeMessage_fits (List.all_eq_true.mp hfits m hm)).1) hm
      shrubEvents_frames.2 shrubEvents_frames.1 hrun
  have hone : (exec (toStep (arrivalOp plainEngine decimalTexts))
      (onGenerateClicked decimalTexts shrubStart (gladeEditor 7)).1 shrubEvents).map (fun p =>
      (p.1.panel.counts, p.1.forge.spawner.activeTransaction)) = some ((1, 1), false) := by
    decide +kernel
  rw [hrun, Option.map_some, Option.some.injEq, Prod.mk.injEq] at hone
  have hlength : ((entries.length : ℤ), (entries.length : ℤ)) = (1, 1) := hcounts.symm.trans hone.1
  refine ⟨ed, os, entries, hrun, ?_, hreceived, hdraining, hone.2, hone.1, hidle⟩
  exact_mod_cast (Prod.mk.inj hlength).1

end AetherForge.Plugin
