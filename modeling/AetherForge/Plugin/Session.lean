import AetherForge.Backend.Traffic
import AetherForge.Plugin.EndToEnd
import AetherForge.Plugin.Handshake

/-!
# The editor and the server together

The module on one end and a connection of the server on the other, with what is on its way between
them.  Requests and messages are delivered in the order in which they were sent, each after any
delay; the user, the server's goroutines, the loads and the ticks act at any time in between.

* `stepSession` — one step of either end;
* `Linked` — each end has run by itself, and what one has sent is what the other has received and
  what is still on its way;
* `op_quiet` — only a start opens a generation and asks for it;
* `session_requests` — the server refuses nothing that the module sends, and takes on all of its
  requests, in their order.
-/

namespace AetherForge.Plugin

open Go GoJson Interaction Operation StructJson Transition

/-! ### State -/

/-- What the two programs take from their libraries, and how the server is set up. -/
structure Peers where
  engine : Engine
  print : ℚ → Json
  format : NumberFormat
  explain : Option String → Json → String
  orchestrator : Orchestrator

/-- The libraries keep their promises, and the server places with `place`. -/
structure Peers.Lawful (W : Peers) : Prop where
  engine : W.engine.Lawful W.format
  prints : Prints W.print
  places : ∃ D, W.orchestrator.place = place D

/-- Both ends, and what is on its way from the client to the server and back. -/
structure Session where
  forge : EditorModule
  server : Connection
  upstream : List AetherForge.Frame
  downstream : List Bytes

/-- What happens next. -/
inductive SessionEvent
  /-- A start, a cancel, the closing of the socket, a load callback or a tick. -/
  | editor (event : ModuleEvent)
  /-- The module handles the next frame. -/
  | deliver (requests : ℕ → RequestAnswers) (completed : ℕ → Bool)
  /-- The server reads the next frame. -/
  | receive
  /-- Another turn of the server. -/
  | server (turn : AetherForge.Turn)

inductive SessionAction
  | delivered (data : Bytes)
  | editor (a : ModuleAction)
  | server (x : Occurrence)

/-! ### Steps -/

section Steps

variable (W : Peers)

/-- The frame that the client sends for an action of the module. -/
def ModuleAction.frame? : ModuleAction → Option AetherForge.Frame
  | .sentGenerate generationId prompt seed bounds =>
    some (.ok (serializeGenerate W.engine.toConversions W.print generationId prompt seed bounds))
  | .sentCancel generationId =>
    some (.ok (serializeCancel W.engine.toConversions W.print generationId))
  | .spawner _ _ => none

/-- The first frame of a connection. -/
def helloOf (entries : TMap ManifestAssetEntry) : AetherForge.Frame :=
  .ok (serializeHello W.engine.toConversions W.print (buildWireManifest entries))

/-- The module has just been connected: the client has sent its `hello`. -/
def Session.start (forge : EditorModule) (entries : TMap ManifestAssetEntry) : Session :=
  ⟨forge, .start, [helloOf W entries], []⟩

/-- The module handles an event, and the client sends what comes of it. -/
def Session.handle (event : ModuleEvent) (s : Session) : Session × List SessionAction :=
  let r := event.op W.engine s.forge
  ({ s with
    forge := r.1
    upstream := s.upstream ++ r.2.filterMap (ModuleAction.frame? W) }, r.2.map .editor)

/-- The server takes a turn, and writes what comes of it. -/
def Session.serve (turn : AetherForge.Turn) (s : Session) :
    Option (Session × List SessionAction) :=
  (stepConnection W.explain W.orchestrator s.server turn).map fun p =>
    ({ s with
      server := p.1
      downstream := s.downstream ++ (writes p.2).map (marshal W.format) }, p.2.map .server)

/-- One step of either end. -/
def stepSession : Step Session SessionEvent SessionAction := fun s event =>
  match event with
  | .editor event =>
    match event.data? with
    | some _ => none
    | none => some (s.handle W event)
  | .deliver requests completed =>
    match s.downstream with
    | [] => none
    | data :: rest =>
      let r := ({ s with downstream := rest } : Session).handle W (.frame data requests completed)
      some (r.1, .delivered data :: r.2)
  | .receive =>
    match s.upstream with
    | [] => none
    | frame :: rest => ({ s with upstream := rest } : Session).serve W (.receive frame)
  | .server (.receive _) => none
  | .server turn => s.serve W turn

end Steps

/-- **What a step is**: the module handles an event, with its frame taken from what is on its way,
or the server takes a turn. -/
inductive Taken (W : Peers) (s : Session) : Session → List SessionAction → Prop
  | handled (event : ModuleEvent) (down : List Bytes)
      (hdown : s.downstream = event.data?.toList ++ down) :
      Taken W s (({ s with downstream := down } : Session).handle W event).1
        (event.data?.toList.map .delivered ++
          (({ s with downstream := down } : Session).handle W event).2)
  | served {s' : Session} {o : List SessionAction} (turn : AetherForge.Turn)
      (up : List AetherForge.Frame) (hup : s.upstream = turn.frame?.toList ++ up)
      (hserve : ({ s with upstream := up } : Session).serve W turn = some (s', o)) : Taken W s s' o

theorem step_taken {W : Peers} {s s' : Session} {event : SessionEvent} {o : List SessionAction}
    (h : stepSession W s event = some (s', o)) : Taken W s s' o := by
  cases event with
  | editor event =>
    simp only [stepSession] at h
    split at h
    · cases h
    · rename_i hnone
      have hdown : s.downstream = event.data?.toList ++ s.downstream := by
        rw [hnone]
        rfl
      have htaken := Taken.handled (W := W) event s.downstream hdown
      rw [hnone] at htaken
      cases h
      exact htaken
  | deliver requests completed =>
    simp only [stepSession] at h
    split at h
    · cases h
    · rename_i data rest hdown
      cases h
      exact .handled (.frame data requests completed) rest hdown
  | receive =>
    simp only [stepSession] at h
    split at h
    · cases h
    · rename_i frame rest hup
      exact .served (.receive frame) rest hup h
  | server turn =>
    cases turn with
    | receive => cases h
    | readFails | reader | orchestrator => exact .served _ s.upstream rfl h

/-! ### What a run shows -/

def SessionAction.delivered? : SessionAction → Option Bytes
  | .delivered data => some data
  | _ => none

def SessionAction.editor? : SessionAction → Option ModuleAction
  | .editor a => some a
  | _ => none

def SessionAction.server? : SessionAction → Option Occurrence
  | .server x => some x
  | _ => none

/-- The frames that the module has handled. -/
def deliveries (os : List SessionAction) : List Bytes := os.filterMap SessionAction.delivered?

/-- What the module shows. -/
def edits (os : List SessionAction) : List ModuleAction := os.filterMap SessionAction.editor?

/-- What the server shows. -/
def occurrences (os : List SessionAction) : List Occurrence := os.filterMap SessionAction.server?

section Logs

variable (os os' : List SessionAction) (as : List ModuleAction) (xs : List Occurrence)

@[simp] theorem deliveries_append : deliveries (os ++ os') = deliveries os ++ deliveries os' :=
  List.filterMap_append

@[simp] theorem edits_append : edits (os ++ os') = edits os ++ edits os' := List.filterMap_append

@[simp] theorem occurrences_append :
    occurrences (os ++ os') = occurrences os ++ occurrences os' := List.filterMap_append

@[simp] theorem edits_editor : edits (as.map .editor) = as := by
  rw [edits, List.filterMap_map]
  exact List.filterMap_some

@[simp] theorem occurrences_server : occurrences (xs.map .server) = xs := by
  rw [occurrences, List.filterMap_map]
  exact List.filterMap_some

@[simp] theorem deliveries_editor : deliveries (as.map .editor) = [] :=
  List.filterMap_eq_nil_iff.mpr fun x hx => by
    obtain ⟨a, -, rfl⟩ := List.mem_map.mp hx
    rfl

@[simp] theorem occurrences_editor : occurrences (as.map .editor) = [] :=
  List.filterMap_eq_nil_iff.mpr fun x hx => by
    obtain ⟨a, -, rfl⟩ := List.mem_map.mp hx
    rfl

@[simp] theorem deliveries_server : deliveries (xs.map .server) = [] :=
  List.filterMap_eq_nil_iff.mpr fun x hx => by
    obtain ⟨a, -, rfl⟩ := List.mem_map.mp hx
    rfl

@[simp] theorem edits_server : edits (xs.map .server) = [] :=
  List.filterMap_eq_nil_iff.mpr fun x hx => by
    obtain ⟨a, -, rfl⟩ := List.mem_map.mp hx
    rfl

end Logs

/-! ### Both ends and the link -/

/-- Each end has run by itself, from where it began; what the client has sent is what the server has
read and what is still on its way, and the same the other way round. -/
structure Linked (W : Peers) (forge : EditorModule) (entries : TMap ManifestAssetEntry)
    (past : List SessionAction) (s : Session) : Prop where
  module : ∃ events,
    exec (toStep (ModuleEvent.op W.engine)) forge events = some (s.forge, edits past)
  server : ∃ turns, exec (stepConnection W.explain W.orchestrator) .start turns =
    some (s.server, occurrences past)
  upstream : frames (occurrences past) ++ s.upstream =
    helloOf W entries :: (edits past).filterMap (ModuleAction.frame? W)
  downstream : deliveries past ++ s.downstream =
    (writes (occurrences past)).map (marshal W.format)

section Links

variable {W : Peers} {forge : EditorModule} {entries : TMap ManifestAssetEntry}
  {past o : List SessionAction} {s s' : Session}

/-- The module handles an event, with the frame of a delivery taken from what is on its way. -/
theorem Linked.handle (h : Linked W forge entries past s) (event : ModuleEvent)
    {down : List Bytes} (hdown : s.downstream = event.data?.toList ++ down) :
    Linked W forge entries
      (past ++ (event.data?.toList.map .delivered ++
        (({ s with downstream := down } : Session).handle W event).2))
      (({ s with downstream := down } : Session).handle W event).1 := by
  obtain ⟨events, hrun⟩ := h.module
  have hnoEdit : ∀ data : Option Bytes, edits (data.toList.map SessionAction.delivered) = [] := by
    intro data
    cases data <;> rfl
  have hnoServer : ∀ data : Option Bytes,
      occurrences (data.toList.map SessionAction.delivered) = [] := by
    intro data
    cases data <;> rfl
  have hdelivered : ∀ data : Option Bytes,
      deliveries (data.toList.map SessionAction.delivered) = data.toList := by
    intro data
    cases data <;> rfl
  constructor
  · refine ⟨events ++ [event], ?_⟩
    simp only [edits_append, hnoEdit, List.nil_append, Session.handle, edits_editor]
    exact exec_trans hrun (exec_singleton _ rfl)
  · simpa only [occurrences_append, hnoServer, Session.handle, occurrences_editor,
      List.append_nil] using h.server
  · simp only [occurrences_append, edits_append, hnoServer, hnoEdit, Session.handle,
      occurrences_editor, edits_editor, List.append_nil, List.nil_append, List.filterMap_append]
    rw [← List.append_assoc, h.upstream, List.cons_append]
  · simp only [deliveries_append, occurrences_append, hnoServer, hdelivered, Session.handle,
      deliveries_editor, occurrences_editor, List.append_nil]
    rw [← h.downstream, hdown, List.append_assoc]

/-- The server takes a turn, with the frame of a read taken from what is on its way. -/
theorem Linked.serve (h : Linked W forge entries past s) {turn : AetherForge.Turn}
    {up : List AetherForge.Frame} (hup : s.upstream = turn.frame?.toList ++ up)
    (hstep : ({ s with upstream := up } : Session).serve W turn = some (s', o)) :
    Linked W forge entries (past ++ o) s' := by
  obtain ⟨turns, hrun⟩ := h.server
  obtain ⟨⟨c, xs⟩, hturn, heq⟩ := Option.map_eq_some_iff.mp hstep
  cases heq
  constructor
  · simpa only [edits_append, edits_server, List.append_nil] using h.module
  · refine ⟨turns ++ [turn], ?_⟩
    rw [occurrences_append, occurrences_server]
    exact exec_trans hrun (exec_singleton _ hturn)
  · simp only [occurrences_append, occurrences_server, edits_append, edits_server, frames_append,
      List.append_nil]
    rw [← h.upstream, hup, step_frames hturn, List.append_assoc]
  · simp only [deliveries_append, deliveries_server, occurrences_append, occurrences_server,
      List.append_nil, writes_append, List.map_append]
    rw [← h.downstream, List.append_assoc]

theorem step_linked {event : SessionEvent} (h : Linked W forge entries past s)
    (hstep : stepSession W s event = some (s', o)) : Linked W forge entries (past ++ o) s' := by
  cases step_taken hstep with
  | handled event down hdown => exact h.handle event hdown
  | served turn up hup hserve => exact h.serve hup hserve

/-- **Run lemma.** -/
theorem run_linked {steps : List SessionEvent} {os : List SessionAction}
    (h : exec (stepSession W) (.start W forge entries) steps = some (s, os)) :
    Linked W forge entries os s := by
  have hrule : Linked W forge entries ([] ++ os) s := by
    refine exec_history (J := Linked W forge entries)
      (fun _ _ _ _ _ hJ hstep => step_linked hJ hstep) ?_ h
    exact ⟨⟨[], rfl⟩, ⟨[], rfl⟩, rfl, rfl⟩
  exact hrule

end Links

/-! ### Requests -/

def ModuleAction.generate? : ModuleAction → Option Generate
  | .sentGenerate generationId prompt seed bounds =>
    some (requestOf generationId prompt seed bounds)
  | _ => none

/-- The generations that the module has asked for. -/
def generated (os : List ModuleAction) : List Generate := os.filterMap ModuleAction.generate?

/-- The id of the generation that is opened. -/
def ModuleAction.opening? : ModuleAction → Option String
  | .spawner _ (.opened generationId) => some generationId
  | _ => none

/-- No generation is opened, and none is asked for. -/
def ModuleAction.Quiet (x : ModuleAction) : Prop := x.generate? = none ∧ x.opening? = none

/-- What the spawner shows, if it opens nothing. -/
theorem spawner_quiet {chunk : Option String} {o : List SpawnAction}
    (ho : ∀ generationId, .opened generationId ∉ o) :
    ∀ x ∈ o.map (ModuleAction.spawner chunk), x.Quiet := by
  intro x hx
  obtain ⟨a, ha, rfl⟩ := List.mem_map.mp hx
  cases a with
  | opened generationId => exact absurd ha (ho generationId)
  | received | requested | spawned | skipped | cancelled | finalized => exact ⟨rfl, rfl⟩

theorem endActive_quiet (discard : Bool) (completed : ℕ → Bool) (m : EditorModule) :
    ∀ x ∈ (endActive discard completed m).2, x.Quiet := by
  intro x hx
  rcases List.mem_append.mp hx with hx | hx
  · exact spawner_quiet (fun _ h => endGeneration_within discard completed m.spawner _ h) x hx
  · cases hx

theorem handleMessage_quiet (requests : ℕ → RequestAnswers) (completed : ℕ → Bool)
    (message : ServerMessage) (m : EditorModule) :
    ∀ x ∈ (handleMessage requests completed message m).2, x.Quiet := by
  intro x hx
  cases message with
  | plan | invalid => cases hx
  | chunk chunk =>
    simp only [handleMessage, handleChunk] at hx
    split at hx
    · exact spawner_quiet ((enqueueEntries_attends _).opened m.spawner) x hx
    · cases hx
  | complete complete =>
    simp only [handleMessage, handleComplete] at hx
    split at hx
    · exact endActive_quiet _ _ _ x hx
    · cases hx
  | error error =>
    simp only [handleMessage, handleServerError] at hx
    split at hx
    · exact endActive_quiet _ _ _ x hx
    · cases hx

/-- **Only a start** opens a generation and asks for it. -/
theorem op_quiet (E : Engine) {event : ModuleEvent}
    (h : ∀ prompt seed areaMeters ans, event ≠ .start prompt seed areaMeters ans)
    (m : EditorModule) : ∀ x ∈ (event.op E m).2, x.Quiet := by
  intro x hx
  cases event with
  | start prompt seed areaMeters ans => exact absurd rfl (h prompt seed areaMeters ans)
  | frame data requests completed => exact handleMessage_quiet _ _ _ _ x hx
  | loaded key ans => exact spawner_quiet ((loaded_attends key ans).opened m.spawner) x hx
  | tick world turns => exact spawner_quiet ((spawnTick_attends world turns).opened m.spawner) x hx
  | closed completed =>
    simp only [ModuleEvent.op, handleClosed] at hx
    split at hx
    · exact endActive_quiet _ _ _ x hx
    · cases hx
  | cancel connected completed =>
    simp only [ModuleEvent.op, cancelActiveGeneration] at hx
    split at hx
    · cases hx
    · rcases List.mem_append.mp hx with hx | hx
      · simp only [sendCancel] at hx
        split at hx
        · cases List.mem_singleton.mp hx
          exact ⟨rfl, rfl⟩
        · cases hx
      · exact endActive_quiet _ _ _ x hx

/-- The bounds of every request can be sent. -/
theorem run_bounds {E : Engine} {events : List ModuleEvent} {m m' : EditorModule}
    {os : List ModuleAction} (h : exec (toStep (ModuleEvent.op E)) m events = some (m', os)) :
    ∀ generationId prompt seed bounds, .sentGenerate generationId prompt seed bounds ∈ os →
      bounds.sent.EachFloat InFloat64 := by
  intro generationId prompt seed bounds hmem
  have hrule := exec_outputs (I := fun _ => True) (Q := fun x => ∀ generationId prompt seed bounds,
    x = .sentGenerate generationId prompt seed bounds → bounds.sent.EachFloat InFloat64) ?_
    trivial h
  · exact hrule.2 _ hmem generationId prompt seed bounds rfl
  · rintro m event m' o - hstep
    refine ⟨trivial, ?_⟩
    rintro x hx generationId prompt seed bounds rfl
    have ho : (event.op E m).2 = o := congrArg Prod.snd (Option.some.inj hstep)
    rw [← ho] at hx
    by_cases hstart : ∃ prompt seed areaMeters ans, event = .start prompt seed areaMeters ans
    · obtain ⟨prompt', seed', areaMeters, ans, rfl⟩ := hstart
      rw [(startGeneration_sent hx).2.2]
      exact boundsForArea_inFloat64 areaMeters
    · have hquiet := op_quiet E (fun prompt seed areaMeters ans heq =>
        hstart ⟨prompt, seed, areaMeters, ans, heq⟩) m _ hx
      cases hquiet.1

/-- The seeds of the requests are of type `int64`. -/
def SeedsFit (os : List ModuleAction) : Prop :=
  ∀ generationId prompt n bounds, .sentGenerate generationId prompt (some n) bounds ∈ os → InInt64 n

theorem seedsFit_of_generated {as : List ModuleAction}
    (h : ∀ req ∈ generated as, ∀ n, req.seed = some n → InInt64 n) : SeedsFit as :=
  fun generationId prompt n bounds hmem => h (requestOf generationId prompt (some n) bounds)
    (List.mem_filterMap.mpr ⟨_, hmem, rfl⟩) n rfl

section Requests

variable {W : Peers} {forge : EditorModule} {entries : TMap ManifestAssetEntry}
  {os : List SessionAction} {s : Session}

/-- A request is read as it was sent, and a cancel is one. -/
theorem decode_frame (hprint : Prints W.print) {as : List ModuleAction} (hseeds : SeedsFit as)
    (hbounds : ∀ generationId prompt seed bounds,
      .sentGenerate generationId prompt seed bounds ∈ as → bounds.sent.EachFloat InFloat64)
    {a : ModuleAction} (ha : a ∈ as) {frame : AetherForge.Frame}
    (hframe : a.frame? W = some frame) :
    requestIn W.explain frame = a.generate? ∧ reply W.explain frame = none := by
  cases a with
  | spawner => cases hframe
  | sentGenerate generationId prompt seed bounds =>
    cases hframe
    have hseed : ∀ n, seed = some n → InInt64 n := by
      rintro n rfl
      exact hseeds _ _ _ _ ha
    have hdecode : decode W.explain (.ok (serializeGenerate W.engine.toConversions W.print
        generationId prompt seed bounds)) = .ok _ :=
      (serializeGenerate_decoded (fun _ => "") W.explain hprint hseed (hbounds _ _ _ _ ha)).1
    simp only [requestIn, reply, dispatch, hdecode]
    exact ⟨rfl, trivial⟩
  | sentCancel generationId =>
    cases hframe
    have hdecode : decode W.explain (.ok (encodeMessage W.print
        (.cancel ⟨Version, TypeCancel, generationId⟩))) = .ok _ :=
      decode_encodeMessage W.explain rfl trivial trivial
    rw [serializeCancel_eq hprint]
    have hsame : encodeMessage W.print (.cancel ⟨Version, TypeCancel, generationId⟩) =
        encodeCancel ⟨Version, TypeCancel, generationId⟩ := rfl
    rw [hsame] at hdecode
    simp only [requestIn, reply, dispatch, hdecode]
    exact ⟨rfl, trivial⟩

/-- The requests among the frames of a module's run. -/
theorem requestsIn_frames (hprint : Prints W.print) {as : List ModuleAction} (hseeds : SeedsFit as)
    (hbounds : ∀ generationId prompt seed bounds,
      .sentGenerate generationId prompt seed bounds ∈ as → bounds.sent.EachFloat InFloat64) :
    requestsIn W.explain (as.filterMap (ModuleAction.frame? W)) = generated as := by
  rw [requestsIn, generated, List.filterMap_filterMap]
  refine List.filterMap_congr fun a ha => ?_
  cases hframe : a.frame? W with
  | none =>
    cases a with
    | spawner => rfl
    | sentGenerate | sentCancel => cases hframe
  | some frame => exact (decode_frame hprint hseeds hbounds ha hframe).1

/-- The server's side, when the manifest of the first frame has an entry. -/
theorem linked_replies (hW : W.Lawful) (hvalid : ValidEntries entries) (hne : entries.entries ≠ [])
    (hseeds : SeedsFit (edits os)) (hL : Linked W forge entries os s) :
    replies (occurrences os) = [] ∧ s.server.reader.pending = [] := by
  obtain ⟨events, hmodule⟩ := hL.module
  obtain ⟨turns, hserver⟩ := hL.server
  have hlink := hL.upstream
  obtain ⟨hello, hcarries, hhandshake⟩ := handshake_serializeHello W.explain
    hW.engine.toLawful hW.prints hvalid
  have hlen : hello.manifest.len ≠ 0 := by
    rw [ne_eq, hcarries.len_eq_zero_iff]
    exact fun hnil => hne (List.map_eq_nil_iff.mp hnil)
  rw [if_neg hlen] at hhandshake
  generalize hserverState : s.server = server at hserver
  cases exec_tells hserver with
  | silent r hr hframes hreplies hactions =>
    refine ⟨hreplies, ?_⟩
    rcases hr with rfl | rfl | rfl <;> rfl
  | refused r frame e hframe hr hframes hreplies hactions =>
    rw [hframes] at hlink
    obtain ⟨rfl, -⟩ := List.cons.inj hlink
    rw [helloOf, hhandshake] at hframe
    cases hframe
  | served r sys frame rest store hS =>
    rw [hS.read] at hlink
    obtain ⟨-, hrest⟩ := List.cons.inj hlink
    have hanswered := hS.answered
    -- every frame after the first is a request or a cancel
    have hnone : rest.filterMap (reply W.explain) = [] := by
      refine List.filterMap_eq_nil_iff.mpr fun f hf => ?_
      have hmem : f ∈ (edits os).filterMap (ModuleAction.frame? W) :=
        hrest ▸ List.mem_append_left _ hf
      obtain ⟨a, ha, hframe⟩ := List.mem_filterMap.mp hmem
      exact (decode_frame hW.prints hseeds (run_bounds hmodule) ha hframe).2
    rw [hnone] at hanswered
    exact List.append_eq_nil_iff.mp hanswered

/-- The server has taken on what the module has asked for, but for what is on its way. -/
theorem linked_requests (hW : W.Lawful) (hvalid : ValidEntries entries)
    (hseeds : SeedsFit (edits os)) (hL : Linked W forge entries os s) :
    s.server.requests ++ requestsIn W.explain s.upstream = generated (edits os) := by
  obtain ⟨events, hmodule⟩ := hL.module
  obtain ⟨turns, hserver⟩ := hL.server
  -- the requests among the frames read, and among those on their way
  have hwire : ∀ p ∈ (buildWireManifest entries).entries,
      p.1 ≠ "" ∧ InFloat64 p.2.footprintRadius := by
    intro p hp
    obtain ⟨p', hp', rfl⟩ := List.mem_map.mp hp
    exact hvalid p' hp'
  obtain ⟨hello, -, hdecode, -⟩ := serializeHello_decoded (fun _ => "") W.explain
    hW.engine.toLawful hW.prints hwire
  have hfirst : requestIn W.explain (helloOf W entries) = none := by
    rw [requestIn, helloOf, hdecode]
  have hall : requestsIn W.explain (frames (occurrences os)) ++
      requestsIn W.explain s.upstream = generated (edits os) := by
    rw [← requestsIn_append, hL.upstream,
      ← requestsIn_frames hW.prints hseeds (run_bounds hmodule)]
    exact List.filterMap_cons_none hfirst
  rw [← hall, Connection.requests]
  have hrequested := connection_requests hserver
  cases horch : s.server.orch with
  | some sys => exact congrArg (· ++ _) (hrequested.handed sys horch)
  | none =>
    -- at most the first frame has been read
    have hread : requestsIn W.explain (frames (occurrences os)) = [] := by
      have hlink := hL.upstream
      generalize hserverState : s.server = server at hserver horch
      cases exec_tells hserver with
      | silent r hr hframes _ _ =>
        rw [hframes]
        rfl
      | refused r frame e _ _ hframes _ _ =>
        rw [hframes] at hlink ⊢
        obtain ⟨rfl, -⟩ := List.cons.inj hlink
        exact List.filterMap_cons_none hfirst
      | served => cases horch
    rw [hread]

/-- **Requests.**  The module has just been connected, with a manifest that has an entry, whatever
generations it has had before.  After every run of both ends:

* the server has sent no error of its own, and is about to send none;
* the requests that the server has taken on, and those on their way, are exactly those that the
  module has sent, in their order. -/
theorem session_requests (hW : W.Lawful) (hvalid : ValidEntries entries)
    (hne : entries.entries ≠ []) {steps : List SessionEvent}
    (hrun : exec (stepSession W) (.start W forge entries) steps = some (s, os))
    (hseeds : SeedsFit (edits os)) :
    replies (occurrences os) = [] ∧ s.server.reader.pending = [] ∧
      s.server.requests ++ requestsIn W.explain s.upstream = generated (edits os) := by
  have hL := run_linked hrun
  obtain ⟨hreplies, hpending⟩ := linked_replies hW hvalid hne hseeds hL
  exact ⟨hreplies, hpending, linked_requests hW hvalid hseeds hL⟩

end Requests

/-- The libraries of the examples, and a server that draws evenly. -/
def shrubPeers : Peers := ⟨plainEngine, encodeFloat64, halvesFormat, fun _ _ => "", .new evenDraws⟩

theorem shrubPeers_lawful : shrubPeers.Lawful :=
  ⟨plainEngine_lawful halvesFormat, prints_encodeFloat64, _, rfl⟩

theorem validEntries_shrub : ValidEntries shrubAsset := by
  intro p hp
  rw [List.mem_singleton.mp hp]
  decide +kernel

def gladeAsked : Generate := requestOf "gen-0123abcd" "a glade" (some 7) (boundsForArea 70)

def heathAsked : Generate := requestOf "gen-89abcdef" "a heath" none (boundsForArea 70)

theorem seedsFit_shrub {as : List ModuleAction} (h : generated as = [gladeAsked, heathAsked]) :
    SeedsFit as := by
  refine seedsFit_of_generated fun req hreq n hn => ?_
  rw [h, List.mem_pair] at hreq
  rcases hreq with rfl | rfl
  · cases hn
    decide
  · cases hn

/-- Two starts; the server has read the first request, and the second one is on its way. -/
def shrubSteps : List SessionEvent :=
  [.editor (.start "a glade" (some 7) 70 shrubStart), .receive, .receive,
    .editor (.start "a heath" none 70 { shrubStart with guid := "89ABCDEF0123" })]

theorem session_requests_shrub :
    ∃ s os, exec (stepSession shrubPeers) (.start shrubPeers .start shrubAsset) shrubSteps =
        some (s, os) ∧
      replies (occurrences os) = [] ∧ s.server.reader.pending = [] ∧
      s.server.requests ++ requestsIn shrubPeers.explain s.upstream =
        [gladeAsked, heathAsked] := by
  have hgenerated : (exec (stepSession shrubPeers) (.start shrubPeers .start shrubAsset)
      shrubSteps).map (fun p => generated (edits p.2)) = some [gladeAsked, heathAsked] := by
    decide +kernel
  obtain ⟨⟨s, os⟩, hrun, hasked⟩ := Option.map_eq_some_iff.mp hgenerated
  obtain ⟨hreplies, hpending, hrequests⟩ := session_requests shrubPeers_lawful validEntries_shrub
    (List.cons_ne_nil _ _) hrun (seedsFit_shrub hasked)
  exact ⟨s, os, hrun, hreplies, hpending, hrequests.trans hasked⟩

end AetherForge.Plugin
