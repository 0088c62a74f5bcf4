import AetherForge.Plugin.Session

/-!
# What the editor hears of a generation

Generations are started, cancelled and started again while frames of older ones are still on their
way.  In every such run the module takes from what it hears only what the server has placed for the
generation that it follows.

* `op_leaves` — what an event does to the generation that the module follows;
* `Serves` — each generation of the server runs on a request of the module;
* `Serves.filter_written` — what is written with an id is what is written of one generation;
* `Hears` — the entries received are those that came with the id that is followed;
* `session_agrees` — they are the first of a placement for its request, and all of them when its
  complete comes.
-/

namespace AetherForge.Plugin

open Go GoJson Interaction Operation StructJson Transition

/-! ### The generation that is followed -/

/-- The ids of the generations that have been opened. -/
def openings (os : List ModuleAction) : List String := os.filterMap ModuleAction.opening?

/-- The entries that have been received since the last opening. -/
def entriesSince (os : List ModuleAction) : List AssetEntry :=
  (current os).filterMap SpawnAction.receivedEntry

/-- The entry, if it is spawned as this generation. -/
def ModuleAction.spawnedFor (generationId : String) : ModuleAction → Option AssetEntry
  | .spawner _ (.spawned id entry _) => if id = generationId then some entry else none
  | _ => none

/-- The entries spawned as a generation. -/
def spawnedFor (generationId : String) (os : List ModuleAction) : List AssetEntry :=
  os.filterMap (ModuleAction.spawnedFor generationId)

/-- The entries that an event brings to a generation. -/
def ModuleEvent.brings (E : Engine) (generationId : String) : ModuleEvent → List AssetEntry
  | .frame data _ _ =>
    if (parseServerMessage E data).carries generationId then (parseServerMessage E data).assets
    else []
  | _ => []

/-- What an event does to the generation that the module follows: it begins another one, goes on
with it, or lets it go. -/
inductive Leaves (E : Engine) (event : ModuleEvent) (m : EditorModule) (os : List ModuleAction)
    (m' : EditorModule) : Prop
  | begins (hne : m'.activeGenerationId ≠ "") (hopen : openings os = [m'.activeGenerationId])
      (hasked : ((generated os).map (·.generationId)).Sublist [m'.activeGenerationId])
      (hsince : ∀ past, entriesSince (past ++ os) = []) (hframe : event.data? = none)
  | goesOn (hactive : m'.activeGenerationId = m.activeGenerationId) (hopen : openings os = [])
      (hasked : generated os = []) (hreceived : m.activeGenerationId ≠ "" →
        entriesReceived os = event.brings E m.activeGenerationId)
  | letsGo (hactive : m'.activeGenerationId = "") (hopen : openings os = [])
      (hasked : generated os = [])

section Events

variable {m : EditorModule}

theorem openings_append (os os' : List ModuleAction) :
    openings (os ++ os') = openings os ++ openings os' := List.filterMap_append

theorem generated_append (os os' : List ModuleAction) :
    generated (os ++ os') = generated os ++ generated os' := List.filterMap_append

theorem openings_of_quiet {os : List ModuleAction} (h : ∀ x ∈ os, x.Quiet) : openings os = [] :=
  List.filterMap_eq_nil_iff.mpr fun x hx => (h x hx).2

theorem generated_of_quiet {os : List ModuleAction} (h : ∀ x ∈ os, x.Quiet) : generated os = [] :=
  List.filterMap_eq_nil_iff.mpr fun x hx => (h x hx).1

/-- Without an opening, what is received is added. -/
theorem entriesSince_append (past : List ModuleAction) {os : List ModuleAction}
    (h : openings os = []) :
    entriesSince (past ++ os) = entriesSince past ++ entriesReceived os := by
  rw [entriesSince, current_append, foldl_since, List.filterMap_append]
  · rfl
  · intro generationId hmem
    obtain ⟨x, hx, hopened⟩ := List.mem_filterMap.mp hmem
    cases x with
    | spawner chunk a =>
      cases hopened
      have hnone := List.filterMap_eq_nil_iff.mp h _ hx
      cases hnone
    | sentGenerate | sentCancel => cases hopened

/-- A start on a connected client. -/
theorem start_leaves (E : Engine) (prompt : String) (seed : Option ℤ) (areaMeters : ℚ)
    {ans : StartAnswers} (hconnected : ans.connected = true) (m : EditorModule) :
    Leaves E (.start prompt seed areaMeters ans) m
      ((ModuleEvent.start prompt seed areaMeters ans).op E m).2
      ((ModuleEvent.start prompt seed areaMeters ans).op E m).1 := by
  have hactive : ((ModuleEvent.start prompt seed areaMeters ans).op E m).1.activeGenerationId =
      ans.generationId := startGeneration_active hconnected m
  -- the spawner ends what is open, and opens the new generation; then the request is sent
  obtain ⟨ended, sent, hshown, hended, hsent⟩ : ∃ (ended : List SpawnAction)
      (sent : List ModuleAction),
      ((ModuleEvent.start prompt seed areaMeters ans).op E m).2 =
        ended.map (.spawner none) ++ .spawner none (.opened ans.generationId) :: sent ∧
      (∀ x ∈ ended, x.Within) ∧ (sent = [] ∨ sent = [.sentGenerate ans.generationId prompt seed
        (boundsForArea areaMeters)]) := by
    refine ⟨(endGeneration true ans.completed m.spawner).2,
      if ans.sends then [.sentGenerate ans.generationId prompt seed (boundsForArea areaMeters)]
      else [], ?_, endGeneration_within true ans.completed m.spawner, ?_⟩
    · simp only [ModuleEvent.op, startGeneration, if_pos hconnected, seq, setActiveGenerationId,
        onSpawner, beginGeneration, openGeneration, sendGenerate, List.nil_append, List.map_append,
        List.map_cons, List.map_nil, List.append_assoc, List.singleton_append]
    · split
      · exact .inr rfl
      · exact .inl rfl
  have hquiet : ∀ x ∈ ended.map (ModuleAction.spawner none), x.Quiet :=
    spawner_quiet fun _ h => hended _ h
  have hopenSent : openings sent = [] := by
    rcases hsent with rfl | rfl <;> rfl
  rw [← hactive] at hshown hsent
  refine .begins ?_ ?_ ?_ (fun past => ?_) rfl
  · rw [hactive]
    exact ans.generationId_ne
  · rw [hshown, openings_append, openings_of_quiet hquiet]
    exact congrArg (_ :: ·) hopenSent
  · rw [hshown, generated_append, generated_of_quiet hquiet]
    rcases hsent with rfl | rfl
    · exact List.nil_sublist _
    · exact .refl _
  · have hcurrent : current (past ++ ((ModuleEvent.start prompt seed areaMeters ans).op E m).2) =
        [] := by
      rw [hshown, current_append, List.filterMap_append, List.foldl_append]
      rcases hsent with rfl | rfl <;> rfl
    rw [entriesSince, hcurrent]
    rfl

/-- **What an event does** to the generation that the module follows. -/
theorem op_leaves (E : Engine) (event : ModuleEvent) (hrouted : Routed m) :
    Leaves E event m (event.op E m).2 (event.op E m).1 := by
  by_cases hstart : ∃ prompt seed areaMeters ans, event = .start prompt seed areaMeters ans
  · obtain ⟨prompt, seed, areaMeters, ans, rfl⟩ := hstart
    cases hconnected : ans.connected with
    | true => exact start_leaves E prompt seed areaMeters hconnected m
    | false =>
      have hskip : (ModuleEvent.start prompt seed areaMeters ans).op E m = (m, []) := by
        simp only [ModuleEvent.op, startGeneration, hconnected, Bool.false_eq_true, if_false]
        rfl
      rw [hskip]
      exact .goesOn rfl rfl rfl fun _ => rfl
  have hquiet := op_quiet E (fun prompt seed areaMeters ans heq =>
    hstart ⟨prompt, seed, areaMeters, ans, heq⟩) m
  have hopen := openings_of_quiet hquiet
  have hasked := generated_of_quiet hquiet
  cases event with
  | start prompt seed areaMeters ans => exact absurd ⟨_, _, _, _, rfl⟩ hstart
  | cancel connected completed =>
    exact .letsGo (cancelActiveGeneration_active connected completed m) hopen hasked
  | closed completed =>
    refine .letsGo ?_ hopen hasked
    simp only [ModuleEvent.op, handleClosed]
    split
    · rfl
    · rename_i hempty
      exact not_not.mp hempty
  | loaded key ans =>
    have hload : (ModuleEvent.loaded key ans).arrival = true := rfl
    obtain ⟨hreceived, hactive⟩ := spawnerEvent_receives E hload rfl m
    exact .goesOn hactive hopen hasked fun _ => hreceived
  | tick world turns =>
    have htick : (ModuleEvent.tick world turns).arrival = true := rfl
    obtain ⟨hreceived, hactive⟩ := spawnerEvent_receives E htick rfl m
    exact .goesOn hactive hopen hasked fun _ => hreceived
  | frame data requests completed =>
    have hactive := handleMessage_active requests completed (parseServerMessage E data) m
    cases hends : (parseServerMessage E data).ends &&
        (parseServerMessage E data).carries m.activeGenerationId with
    | true =>
      rw [hends, if_pos rfl] at hactive
      exact .letsGo hactive hopen hasked
    | false =>
      rw [hends, if_neg Bool.false_ne_true] at hactive
      refine .goesOn hactive hopen hasked fun hne => ?_
      simp only [ModuleEvent.brings]
      split
      · rename_i hcarries
        exact handleMessage_receives requests completed hcarries (hrouted.held hne).1
      · rename_i hother
        have hnone : handleMessage requests completed (parseServerMessage E data) m = (m, []) := by
          cases hparse : parseServerMessage E data with
          | plan | invalid => rfl
          | chunk chunk =>
            rw [hparse] at hother
            exact if_neg fun hsame => hother (decide_eq_true hsame)
          | complete complete =>
            rw [hparse] at hother
            exact if_neg fun hsame => hother (decide_eq_true hsame)
          | error error =>
            rw [hparse] at hother
            exact if_neg fun hsame => hother (decide_eq_true hsame.2)
        simp only [ModuleEvent.op, hnone]
        rfl

end Events

/-! ### The generations of the server -/

section Servers

variable (W : Peers) (entries : TMap ManifestAssetEntry) (os : List SessionAction)

/-- What the values of a run are: seeds are of type `int64`, times and sizes are in range, every
float that is sent can be written, and no two of the ids minted differ in their case alone. -/
structure Proper : Prop where
  seeds : SeedsFit (edits os)
  ranged : ∀ i ev, .effect i ev ∈ actions (occurrences os) → InRange ev
  floats : ∀ i ev m, .effect i ev ∈ actions (occurrences os) → AetherForge.handed ev = some m →
    m.EachFloat W.format.Writes
  fresh : ((openings (edits os)).map foldKey).Nodup

/-- The generations of the server run on the first of the requests, with the manifest of the
`hello`. -/
structure Serves (reqs : List Generate) : Prop where
  asked : reqs <+: generated (edits os)
  known : ∀ i ev, .effect i ev ∈ actions (occurrences os) → i < reqs.length
  runs : ∀ i req, reqs[i]? = some req →
    ∃ q, Trace (run W.orchestrator req) (eventsOf i (actions (occurrences os))) q
  advertised : ∀ i man, .effect i ⟨.storeSnapshot, man⟩ ∈ actions (occurrences os) →
    Advertised (buildWireManifest entries) man
  silent : replies (occurrences os) = []

end Servers

section Serving

variable {W : Peers} {forge : EditorModule} {entries : TMap ManifestAssetEntry}
  {os os' : List SessionAction} {s : Session}

theorem Proper.of_append (h : Proper W (os ++ os')) : Proper W os := by
  have hactions : ∀ x ∈ actions (occurrences os), x ∈ actions (occurrences (os ++ os')) := by
    intro x hx
    rw [occurrences_append, actions_append]
    exact List.mem_append_left _ hx
  constructor
  · intro generationId prompt n bounds hmem
    exact h.seeds generationId prompt n bounds (edits_append os os' ▸ List.mem_append_left _ hmem)
  · exact fun i ev hev => h.ranged i ev (hactions _ hev)
  · exact fun i ev m hev => h.floats i ev m (hactions _ hev)
  · have hfresh := h.fresh
    rw [edits_append, openings_append, List.map_append] at hfresh
    exact hfresh.of_append_left

/-- **The server's side of a run.** -/
theorem linked_serves (hW : W.Lawful) (hvalid : ValidEntries entries) (hne : entries.entries ≠ [])
    (hseeds : SeedsFit (edits os)) (hL : Linked W forge entries os s) :
    ∃ reqs, Serves W entries os reqs := by
  obtain ⟨hsilent, -⟩ := linked_replies hW hvalid hne hseeds hL
  have hrequests := linked_requests hW hvalid hseeds hL
  have hlink := hL.upstream
  obtain ⟨turns, hserver⟩ := hL.server
  obtain ⟨hello, hcarries, hhandshake⟩ := handshake_serializeHello W.explain
    hW.engine.toLawful hW.prints hvalid
  have hnone : actions (occurrences os) = [] → Serves W entries os [] := by
    intro hactions
    refine ⟨List.nil_prefix, fun i ev hev => ?_, fun i req hreq => ?_, fun i man hman => ?_,
      hsilent⟩
    · rw [hactions] at hev
      cases hev
    · cases hreq
    · rw [hactions] at hman
      cases hman
  generalize hserverState : s.server = server at hserver hrequests
  cases exec_tells hserver with
  | silent r hr hframes hreplies hactions => exact ⟨[], hnone hactions⟩
  | refused r frame e hframe hr hframes hreplies hactions => exact ⟨[], hnone hactions⟩
  | served r sys frame rest store hS =>
    obtain ⟨labels, hrun⟩ := hS.run
    -- the store holds the manifest of the first frame
    have hstore : store = hello.manifest.copy := by
      have haccepted := hS.accepted
      rw [hS.read] at hlink
      obtain ⟨rfl, -⟩ := List.cons.inj hlink
      rw [helloOf, hhandshake] at haccepted
      split at haccepted
      · cases haccepted
      · exact (Except.ok.inj haccepted).symm
    refine ⟨sys.gens.map (·.req), ?_, fun i ev hev => ?_, fun i req hreq => ?_,
      fun i man hman => ?_, hsilent⟩
    · rw [← hrequests]
      exact ((List.prefix_append _ _).trans (List.prefix_append _ _))
    · rw [List.length_map]
      exact exec_effect_lt hrun hev
    · rw [List.getElem?_map] at hreq
      obtain ⟨g, hg, rfl⟩ := Option.map_eq_some_iff.mp hreq
      exact ⟨_, ((exec_tracesRuns hrun).1 i g hg).2⟩
    · have hman' : man = store.copy := exec_storeEvents hrun hman
      intro k hk
      rw [hman', hstore] at hk
      have hget : (hello.manifest.get? k).isSome := hk
      obtain ⟨e, he⟩ := Option.isSome_iff_exists.mp hget
      obtain ⟨w, hw, -⟩ := (hcarries.2.2 k e).mp he
      exact ⟨w, hw⟩

end Serving

/-! ### Messages and their generations -/

/-- A message of the server, as the module reads it. -/
def Peers.parsed (W : Peers) (m : Message) : ServerMessage :=
  parseServerMessage W.engine (marshal W.format m)

/-- The server has placed these entries for the request. -/
def PlacedFor (W : Peers) (os : List SessionAction) (req : Generate)
    (placed : List AetherForge.AssetEntry) : Prop :=
  ∃ i man recipe seed, .effect i ⟨.storeSnapshot, man⟩ ∈ actions (occurrences os) ∧
    .effect i ⟨.llmReturn, .ok (some recipe)⟩ ∈ actions (occurrences os) ∧ SeedFor req seed ∧
    W.orchestrator.place (clampCounts recipe) seed req.bounds man = .ok placed

/-- A message that conveys another carries one generation alone. -/
theorem Conveys.carries_iff {generationId : String} {m : Message} {m' : ServerMessage}
    (h : Conveys generationId m m') (id : String) :
    m'.carries id = true ↔ sameId generationId id := by
  cases m with
  | plan p =>
    obtain ⟨m, rfl, rfl, -⟩ := h.plan
    exact decide_eq_true_iff
  | chunk c =>
    obtain ⟨m, rfl, rfl, -⟩ := h.chunk
    exact decide_eq_true_iff
  | complete c =>
    obtain ⟨m, rfl, rfl⟩ := h.complete
    exact decide_eq_true_iff
  | error | hello | generate | cancel => cases m' <;> cases h

/-- The frame of a message whose Send has succeeded was handed over. -/
theorem mem_sent_of_written {acts : List Action} {i : ℕ} {ev : Event Eff Resp} {m : Message}
    (hev : .effect i ev ∈ acts) (hwritten : written ev = some m) :
    AetherForge.handed ev = some m ∧ m ∈ sentMessages (eventsOf i acts) := by
  have hhanded : AetherForge.handed ev = some m := by
    obtain ⟨e, r⟩ := ev
    cases e with
    | send msg =>
      simp only [written] at hwritten
      split at hwritten
      · exact hwritten
      · cases hwritten
    | now | storeReady | storeSnapshot | llmInvoke | llmReturn | randUint64 | ctxErr | ctxDone =>
      cases hwritten
  exact ⟨hhanded, List.mem_filterMap.mpr
    ⟨ev, List.mem_filterMap.mpr ⟨.effect i ev, hev, if_pos rfl⟩, hhanded⟩⟩

theorem request_form {as : List ModuleAction} {req : Generate} (h : req ∈ generated as) :
    ∃ generationId prompt seed bounds, req = requestOf generationId prompt seed bounds := by
  obtain ⟨a, -, ha⟩ := List.mem_filterMap.mp h
  cases a with
  | sentGenerate generationId prompt seed bounds =>
    cases ha
    exact ⟨_, _, _, _, rfl⟩
  | spawner | sentCancel => cases ha

/-- The entries of a stream are those that were placed. -/
theorem streamMessages_assets (o : Orchestrator) (req : Generate) (recipe : Recipe) (seed : ℤ)
    (placed : List AetherForge.AssetEntry) (elapsed llmElapsed : ℤ) :
    (streamMessages o req recipe seed placed elapsed llmElapsed).flatMap assetsOf = placed := by
  rw [streamMessages, chunkMessages_eq, ← List.cons_append, List.flatMap_append, opening_assets,
    chunksOf_assets]
  exact List.append_nil _

section Generations

variable {W : Peers} {entries : TMap ManifestAssetEntry} {os : List SessionAction}
  {reqs : List Generate} {i : ℕ} {req : Generate}

/-- **The messages of a generation.**  They are errors, or the first of a stream whose entries have
been placed. -/
theorem Serves.stream (h : Serves W entries os reqs) (hW : W.Lawful)
    (hvalid : ValidEntries entries) (hproper : Proper W os) (hi : reqs[i]? = some req)
    (hid : req.generationId ≠ "") {m₀ : Message}
    (hm₀ : m₀ ∈ sentMessages (eventsOf i (actions (occurrences os))))
    (hne : ∀ e, m₀ ≠ .error e) :
    ∃ placed recipe seed elapsed llmElapsed, PlacedFor W os req placed ∧
      sentMessages (eventsOf i (actions (occurrences os))) <+:
        streamMessages W.orchestrator req recipe seed placed elapsed llmElapsed ∧
      ∀ m ∈ sentMessages (eventsOf i (actions (occurrences os))),
        Conveys req.generationId m (W.parsed m) := by
  obtain ⟨D, hplaces⟩ := hW.places
  obtain ⟨q, ht⟩ := h.runs i req hi
  obtain ⟨generationId, prompt, seed, bounds, rfl⟩ :=
    request_form (h.asked.subset (List.mem_of_getElem? hi))
  have hkeys : ∀ p ∈ (buildWireManifest entries).entries, p.1 ≠ "" := by
    intro p hp
    obtain ⟨p', hp', rfl⟩ := List.mem_map.mp hp
    exact (hvalid p' hp').1
  obtain ⟨man, recipe, seed', placed, elapsed, llmElapsed, hman, hrecipe, hseed, hplace, hpre,
    hheard, -⟩ := heard_stream hW.engine hplaces hkeys hid ht
      (fun ev hev => hproper.ranged i ev (mem_eventsOf hev))
      (fun man hman => h.advertised i man (mem_eventsOf hman))
      (fun m hm => by
        obtain ⟨ev, hev, hhanded⟩ := List.mem_filterMap.mp hm
        exact hproper.floats i ev m (mem_eventsOf hev) hhanded) hm₀ hne
  refine ⟨placed, clampCounts recipe, seed', elapsed, llmElapsed, ?_, hpre, hheard⟩
  refine ⟨i, man, recipe, seed', mem_eventsOf hman, mem_eventsOf hrecipe, hseed, ?_⟩
  rw [hplaces]
  exact hplace

/-- The module reads an error as one, for the same generation. -/
theorem Serves.error (h : Serves W entries os reqs) (hW : W.Lawful) (hproper : Proper W os)
    (hi : reqs[i]? = some req) {e : AetherForge.Error}
    (hm : .error e ∈ sentMessages (eventsOf i (actions (occurrences os)))) :
    ∃ m, W.parsed (.error e) = .error m ∧ m.generationId = req.generationId := by
  obtain ⟨D, hplaces⟩ := hW.places
  obtain ⟨q, ht⟩ := h.runs i req hi
  obtain ⟨ev, hev, hhanded⟩ := List.mem_filterMap.mp hm
  have hemitted : Emitted req.generationId (.error e) := run_emits W.orchestrator req hplaces _ q
    (fun ev hev => hproper.ranged i ev (mem_eventsOf hev)) ht _ hm
  obtain ⟨root, hdata, hroot⟩ :=
    hW.engine.reads (.error e) (hproper.floats i ev _ (mem_eventsOf hev) hhanded)
  have hagrees := parse_error hW.engine hdata hemitted hroot
  change Agrees (.error e) (W.parsed (.error e)) at hagrees
  cases hparsed : W.parsed (.error e) with
  | error m =>
    rw [hparsed] at hagrees
    cases hagrees
    exact ⟨_, rfl, hemitted.2.2.1⟩
  | plan | chunk | complete | invalid =>
    rw [hparsed] at hagrees
    cases hagrees

/-- **The entries of a generation.**  What the first of its messages bring are the first of the
entries that were placed. -/
theorem Serves.part (h : Serves W entries os reqs) (hW : W.Lawful) (hvalid : ValidEntries entries)
    (hproper : Proper W os) (hi : reqs[i]? = some req) (hid : req.generationId ≠ "")
    {ms : List Message} (hms : ms <+: sentMessages (eventsOf i (actions (occurrences os))))
    (hsome : (ms.map W.parsed).flatMap ServerMessage.assets ≠ []) :
    ∃ placed, PlacedFor W os req placed ∧
      (ms.map W.parsed).flatMap ServerMessage.assets <+: placed.map AssetEntry.received := by
  -- errors bring nothing
  obtain ⟨m₀, hm₀, hne⟩ : ∃ m₀ ∈ ms, ∀ e, m₀ ≠ .error e := by
    by_contra hnone
    refine hsome (List.flatMap_eq_nil_iff.mpr fun m' hm' => ?_)
    obtain ⟨m, hm, rfl⟩ := List.mem_map.mp hm'
    by_cases herror : ∃ e, m = .error e
    · obtain ⟨e, rfl⟩ := herror
      obtain ⟨error, hparsed, -⟩ := h.error hW hproper hi (hms.subset hm)
      rw [hparsed]
      rfl
    · exact absurd ⟨m, hm, fun e he => herror ⟨e, he⟩⟩ hnone
  obtain ⟨placed, _, _, _, _, hplaced, hpre, hconveys⟩ :=
    h.stream hW hvalid hproper hi hid (hms.subset hm₀) hne
  have hassets := (hms.trans hpre).flatMap assetsOf
  rw [streamMessages_assets] at hassets
  refine ⟨placed, hplaced, ?_⟩
  rw [heard_assets fun m hm => hconveys m (hms.subset hm)]
  exact hassets.map AssetEntry.received

/-- **All of its entries** have come before its complete. -/
theorem Serves.whole (h : Serves W entries os reqs) (hW : W.Lawful) (hvalid : ValidEntries entries)
    (hproper : Proper W os) (hi : reqs[i]? = some req) (hid : req.generationId ≠ "")
    {ms : List Message} {m : Message} {complete : CompleteMessage}
    (hms : ms ++ [m] <+: sentMessages (eventsOf i (actions (occurrences os))))
    (hcomplete : W.parsed m = .complete complete) :
    ∃ placed, PlacedFor W os req placed ∧
      (ms.map W.parsed).flatMap ServerMessage.assets = placed.map AssetEntry.received := by
  have hlast : m ∈ sentMessages (eventsOf i (actions (occurrences os))) :=
    hms.subset (List.mem_append_right _ (List.mem_singleton.mpr rfl))
  have hne : ∀ e, m ≠ .error e := by
    rintro e rfl
    obtain ⟨error, hparsed, -⟩ := h.error hW hproper hi hlast
    rw [hparsed] at hcomplete
    cases hcomplete
  obtain ⟨placed, _, _, _, _, hplaced, hpre, hconveys⟩ :=
    h.stream hW hvalid hproper hi hid hlast hne
  refine ⟨placed, hplaced, ?_⟩
  obtain ⟨c, rfl⟩ : ∃ c, m = .complete c := by
    have hconvey := hconveys m hlast
    rw [hcomplete] at hconvey
    cases m with
    | complete c => exact ⟨c, rfl⟩
    | plan | chunk | error | hello | generate | cancel => cases hconvey
  obtain ⟨-, hstream⟩ := eq_stream_of_complete_mem
    (List.mem_append_right ms (List.mem_singleton.mpr rfl)) (hms.trans hpre)
  have hall : ms.flatMap assetsOf = placed := by
    have hassets := congrArg (List.flatMap assetsOf) hstream
    rw [streamMessages_assets, List.flatMap_append] at hassets
    exact (List.append_nil _).symm.trans hassets
  rw [heard_assets fun m hm => hconveys m (hms.subset (List.mem_append_left _ hm)), hall]

/-- **A message carries its own generation**, and no other. -/
theorem Serves.carries_iff (h : Serves W entries os reqs) (hW : W.Lawful)
    (hvalid : ValidEntries entries) (hproper : Proper W os) (hi : reqs[i]? = some req)
    (hid : req.generationId ≠ "") {m : Message}
    (hm : m ∈ sentMessages (eventsOf i (actions (occurrences os)))) (id : String) :
    (W.parsed m).carries id = true ↔ sameId req.generationId id := by
  by_cases herror : ∃ e, m = .error e
  · obtain ⟨e, rfl⟩ := herror
    obtain ⟨m', hparsed, hsame⟩ := h.error hW hproper hi hm
    rw [hparsed, ← hsame]
    exact decide_eq_true_iff
  · obtain ⟨_, _, _, _, _, -, -, hconveys⟩ :=
      h.stream hW hvalid hproper hi hid hm fun e he => herror ⟨e, he⟩
    exact (hconveys m hm).carries_iff id

/-- **What is written of a generation**, picked out by its id. -/
theorem Serves.filter_written (h : Serves W entries os reqs) (hW : W.Lawful)
    (hvalid : ValidEntries entries) (hproper : Proper W os)
    (hnamed : ∀ req ∈ reqs, req.generationId ≠ "")
    (hfresh : (reqs.map fun req => foldKey req.generationId).Nodup) (hi : reqs[i]? = some req) :
    (writes (occurrences os)).filter (fun m => (W.parsed m).carries req.generationId) =
      writtenMessages (eventsOf i (actions (occurrences os))) := by
  refine writes_filter (fun e he => ?_) fun j ev m hev hwritten => ?_
  · rw [h.silent] at he
    cases he
  · obtain ⟨-, hm⟩ := mem_sent_of_written hev hwritten
    have hlt : j < reqs.length := h.known j ev hev
    have hj : reqs[j]? = some reqs[j] := List.getElem?_eq_getElem hlt
    rw [h.carries_iff hW hvalid hproper hj (hnamed _ (List.getElem_mem _)) hm]
    constructor
    · intro hsame
      have hat : ∀ (k : ℕ) (r : Generate), reqs[k]? = some r →
          (reqs.map fun req => foldKey req.generationId)[k]? = some (foldKey r.generationId) := by
        intro k r hk
        rw [List.getElem?_map, hk]
        rfl
      refine (List.getElem?_inj ?_ hfresh).mp ((hat j _ hj).trans ?_)
      · rw [List.length_map]
        exact hlt
      · rw [hat i req hi, hsame]
    · rintro rfl
      rw [Option.some.inj (hj.symm.trans hi)]
      exact rfl

/-- What is written was handed over by a generation. -/
theorem Serves.origin (h : Serves W entries os reqs) {m : Message}
    (hm : m ∈ writes (occurrences os)) :
    ∃ j req, reqs[j]? = some req ∧ m ∈ sentMessages (eventsOf j (actions (occurrences os))) := by
  obtain ⟨x, hx, hwritten⟩ := List.mem_filterMap.mp hm
  cases x with
  | received | closed => cases hwritten
  | replied e =>
    have hmem : e ∈ replies (occurrences os) := List.mem_filterMap.mpr ⟨_, hx, rfl⟩
    rw [h.silent] at hmem
    cases hmem
  | orchestrator a =>
    cases a with
    | launched | cancelReturned | shutdownReturned => cases hwritten
    | effect j ev =>
      have hev : .effect j ev ∈ actions (occurrences os) := List.mem_filterMap.mpr ⟨_, hx, rfl⟩
      exact ⟨j, _, List.getElem?_eq_getElem (h.known j ev hev),
        (mem_sent_of_written hev hwritten).2⟩

/-- Nothing that is written carries another id. -/
theorem Serves.filter_none (h : Serves W entries os reqs) (hW : W.Lawful)
    (hvalid : ValidEntries entries) (hproper : Proper W os)
    (hnamed : ∀ req ∈ reqs, req.generationId ≠ "") {id : String}
    (hother : ∀ req ∈ reqs, ¬sameId req.generationId id) :
    (writes (occurrences os)).filter (fun m => (W.parsed m).carries id) = [] := by
  refine List.filter_eq_nil_iff.mpr fun m hm hcarries => ?_
  obtain ⟨j, req, hj, hsent⟩ := h.origin hm
  have hreq := List.mem_of_getElem? hj
  exact hother req hreq
    ((h.carries_iff hW hvalid hproper hj (hnamed req hreq) hsent id).mp hcarries)

end Generations

/-! ### What the module hears -/

/-- The messages that the module has handled. -/
def heardMessages (E : Engine) (os : List SessionAction) : List ServerMessage :=
  (deliveries os).map (parseServerMessage E)

/-- The module follows a generation that it has opened, and what it has received for it is what came
with the messages that carry its id. -/
structure Hears (E : Engine) (past : List SessionAction) (m : EditorModule) : Prop where
  routed : Routed m
  named : ∀ id ∈ openings (edits past), id ≠ ""
  asked : ((generated (edits past)).map (·.generationId)).Sublist (openings (edits past))
  opened : m.activeGenerationId ≠ "" → m.activeGenerationId ∈ openings (edits past)
  entries : m.activeGenerationId ≠ "" → entriesSince (edits past) =
    ((heardMessages E past).filter (·.carries m.activeGenerationId)).flatMap ServerMessage.assets

section Hearing

variable {E : Engine} {past : List SessionAction} {m : EditorModule}

theorem edits_delivered (data : Option Bytes) (as : List ModuleAction) :
    edits (data.toList.map .delivered ++ as.map .editor) = as := by
  rw [edits_append, edits_editor]
  cases data <;> rfl

theorem heard_delivered (data : Option Bytes) (as : List ModuleAction) :
    heardMessages E (data.toList.map .delivered ++ as.map .editor) =
      data.toList.map (parseServerMessage E) := by
  rw [heardMessages, deliveries_append, deliveries_editor, List.append_nil]
  cases data <;> rfl

theorem heardMessages_append (os os' : List SessionAction) :
    heardMessages E (os ++ os') = heardMessages E os ++ heardMessages E os' := by
  rw [heardMessages, deliveries_append, List.map_append]
  rfl

/-- What an event brings is what its message carries. -/
theorem brings_eq (event : ModuleEvent) (id : String) :
    event.brings E id = (((event.data?.toList.map (parseServerMessage E)).filter
      (·.carries id)).flatMap ServerMessage.assets) := by
  cases event with
  | frame data requests completed =>
    simp only [ModuleEvent.brings, ModuleEvent.data?, Option.toList_some, List.map_cons,
      List.map_nil, List.filter_cons, List.filter_nil]
    split
    · exact (List.append_nil _).symm
    · rfl
  | start | cancel | closed | loaded | tick => rfl

/-- **An event of the module**, if nothing that was heard before carries the id of a generation that
it opens. -/
theorem Hears.op (h : Hears E past m) (event : ModuleEvent)
    (hunheard : ∀ id, openings (event.op E m).2 = [id] →
      (heardMessages E past).filter (·.carries id) = []) :
    Hears E (past ++ (event.data?.toList.map .delivered ++ (event.op E m).2.map .editor))
      (event.op E m).1 := by
  have hrouted : Routed (event.op E m).1 := op_routed E event h.routed
  have hedits : edits (past ++ (event.data?.toList.map .delivered ++
      (event.op E m).2.map .editor)) = edits past ++ (event.op E m).2 := by
    rw [edits_append, edits_delivered]
  have hheard : heardMessages E (past ++ (event.data?.toList.map .delivered ++
      (event.op E m).2.map .editor)) =
        heardMessages E past ++ event.data?.toList.map (parseServerMessage E) := by
    rw [heardMessages_append, heard_delivered]
  cases op_leaves E event h.routed with
  | begins hne hopen hasked hsince hframe =>
    refine ⟨hrouted, fun id hmem => ?_, ?_, fun _ => ?_, fun _ => ?_⟩
    · rw [hedits, openings_append, hopen] at hmem
      rcases List.mem_append.mp hmem with hmem | hmem
      · exact h.named id hmem
      · rw [List.mem_singleton.mp hmem]
        exact hne
    · rw [hedits, openings_append, generated_append, List.map_append, hopen]
      exact h.asked.append hasked
    · rw [hedits, openings_append, hopen]
      exact List.mem_append_right _ (List.mem_singleton.mpr rfl)
    · rw [hedits, hheard, hsince, hframe, Option.toList_none, List.map_nil, List.append_nil,
        hunheard _ hopen]
      rfl
  | goesOn hactive hopen hasked hreceived =>
    refine ⟨hrouted, ?_, ?_, fun hne => ?_, fun hne => ?_⟩
    · rw [hedits, openings_append, hopen, List.append_nil]
      exact h.named
    · rw [hedits, openings_append, generated_append, hopen, hasked, List.append_nil,
        List.append_nil]
      exact h.asked
    · rw [hactive] at hne ⊢
      rw [hedits, openings_append, hopen, List.append_nil]
      exact h.opened hne
    · rw [hactive] at hne ⊢
      rw [hedits, hheard, entriesSince_append _ hopen, h.entries hne, hreceived hne, brings_eq,
        List.filter_append, List.flatMap_append]
  | letsGo hactive hopen hasked =>
    refine ⟨hrouted, ?_, ?_, fun hne => absurd hactive hne, fun hne => absurd hactive hne⟩
    · rw [hedits, openings_append, hopen, List.append_nil]
      exact h.named
    · rw [hedits, openings_append, generated_append, hopen, hasked, List.append_nil,
        List.append_nil]
      exact h.asked

/-- A turn of the server changes nothing for the module. -/
theorem Hears.server (h : Hears E past m) (xs : List Occurrence) :
    Hears E (past ++ xs.map .server) m := by
  have hedits : edits (past ++ xs.map .server) = edits past := by
    rw [edits_append, edits_server, List.append_nil]
  have hheard : heardMessages E (past ++ xs.map .server) = heardMessages E past := by
    rw [heardMessages, deliveries_append, deliveries_server, List.append_nil]
    rfl
  constructor
  · exact h.routed
  · rw [hedits]
    exact h.named
  · rw [hedits]
    exact h.asked
  · rw [hedits]
    exact h.opened
  · rw [hedits, hheard]
    exact h.entries

end Hearing

section Sessions

variable {W : Peers} {forge : EditorModule} {entries : TMap ManifestAssetEntry}
  {past o os : List SessionAction} {s s' : Session}

/-- The frames that the module has handled are the first of those written. -/
theorem Linked.heard (h : Linked W forge entries past s) :
    ∃ ms, ms <+: writes (occurrences past) ∧ heardMessages W.engine past = ms.map W.parsed := by
  have hpre : deliveries past <+: (writes (occurrences past)).map (marshal W.format) :=
    h.downstream ▸ List.prefix_append _ _
  obtain ⟨ms, hms, hdeliveries⟩ := List.prefix_map_iff.mp hpre
  refine ⟨ms, hms, ?_⟩
  rw [heardMessages, hdeliveries, List.map_map]
  rfl

/-- The frame that comes next follows them. -/
theorem Linked.next (h : Linked W forge entries past s) {data : Bytes} {rest : List Bytes}
    (hdown : s.downstream = data :: rest) :
    ∃ ms m, ms ++ [m] <+: writes (occurrences past) ∧
      heardMessages W.engine past = ms.map W.parsed ∧
      W.parsed m = parseServerMessage W.engine data := by
  have hpre : deliveries past ++ [data] <+:
      (writes (occurrences past)).map (marshal W.format) := by
    refine ⟨rest, ?_⟩
    rw [← h.downstream, hdown, List.append_assoc, List.singleton_append]
  obtain ⟨ms', hms, hdeliveries⟩ := List.prefix_map_iff.mp hpre
  obtain ⟨ms, last, rfl, hfirst, hlast⟩ := List.map_eq_append_iff.mp hdeliveries.symm
  obtain ⟨m, rfl, hm⟩ := List.map_eq_singleton_iff.mp hlast
  refine ⟨ms, m, hms, ?_, congrArg _ hm⟩
  rw [heardMessages, ← hfirst, List.map_map]
  rfl

/-- What is heard with an id is what is written with it. -/
theorem filter_parsed (ms : List Message) (id : String) :
    (ms.map W.parsed).filter (·.carries id) =
      (ms.filter fun m => (W.parsed m).carries id).map W.parsed := List.filter_map

/-- The ids of the requests that the server has taken on were opened by the module. -/
theorem Hears.requests (h : Hears W.engine past s.forge) {reqs : List Generate}
    (hS : Serves W entries past reqs) :
    (reqs.map (·.generationId)).Sublist (openings (edits past)) :=
  (hS.asked.sublist.map _).trans h.asked

/-- Nothing that was heard carries an id that has not been opened. -/
theorem Hears.unheard (h : Hears W.engine past s.forge) (hW : W.Lawful)
    (hvalid : ValidEntries entries) (hne : entries.entries ≠ []) (hproper : Proper W past)
    (hL : Linked W forge entries past s) {id : String}
    (hfresh : ∀ id' ∈ openings (edits past), ¬sameId id' id) :
    (heardMessages W.engine past).filter (·.carries id) = [] := by
  obtain ⟨reqs, hS⟩ := linked_serves hW hvalid hne hproper.seeds hL
  have hids : ∀ req ∈ reqs, req.generationId ∈ openings (edits past) :=
    fun req hreq => (h.requests hS).subset (List.mem_map_of_mem hreq)
  obtain ⟨ms, hms, hheard⟩ := hL.heard
  have hnone := hS.filter_none hW hvalid hproper (fun req hreq => h.named _ (hids req hreq))
    (fun req hreq => hfresh _ (hids req hreq))
  have hsub := hms.sublist.filter fun m => (W.parsed m).carries id
  rw [hnone] at hsub
  rw [hheard, filter_parsed, List.sublist_nil.mp hsub]
  rfl

/-- What is written with an id that the module has opened is of one generation, whose request the
module has sent with that id; or there is no such thing. -/
theorem Hears.written (h : Hears W.engine past s.forge) (hW : W.Lawful)
    (hvalid : ValidEntries entries) (hproper : Proper W past) {reqs : List Generate}
    (hS : Serves W entries past reqs) {id : String} (hopened : id ∈ openings (edits past)) :
    (writes (occurrences past)).filter (fun m => (W.parsed m).carries id) = [] ∨
      ∃ i req, reqs[i]? = some req ∧ req ∈ generated (edits past) ∧ req.generationId = id ∧
        (writes (occurrences past)).filter (fun m => (W.parsed m).carries id) <+:
          sentMessages (eventsOf i (actions (occurrences past))) := by
  have hids : ∀ req ∈ reqs, req.generationId ∈ openings (edits past) :=
    fun req hreq => (h.requests hS).subset (List.mem_map_of_mem hreq)
  have hnamed : ∀ req ∈ reqs, req.generationId ≠ "" := fun req hreq => h.named _ (hids req hreq)
  by_cases hreq : ∃ req ∈ reqs, sameId req.generationId id
  · obtain ⟨req, hmem, hsame⟩ := hreq
    obtain ⟨i, hi⟩ := List.getElem?_of_mem hmem
    have hid : req.generationId = id :=
      List.inj_on_of_nodup_map hproper.fresh (hids req hmem) hopened hsame
    have hfresh : (reqs.map fun req => foldKey req.generationId).Nodup := by
      have hsub := ((h.requests hS).map foldKey).nodup hproper.fresh
      rwa [List.map_map] at hsub
    obtain ⟨q, ht⟩ := hS.runs i req hi
    refine .inr ⟨i, req, hi, hS.asked.subset hmem, hid, ?_⟩
    rw [← hid, hS.filter_written hW hvalid hproper hnamed hfresh hi]
    exact written_prefix W.orchestrator req ht
  · exact .inl (hS.filter_none hW hvalid hproper hnamed fun req hmem hsame =>
      hreq ⟨req, hmem, hsame⟩)

/-- The module handles an event. -/
theorem Hears.handle (h : Hears W.engine past s.forge) (hW : W.Lawful)
    (hvalid : ValidEntries entries) (hne : entries.entries ≠ [])
    (hL : Linked W forge entries past s) (event : ModuleEvent)
    (hproper : Proper W (past ++ (event.data?.toList.map .delivered ++
      (event.op W.engine s.forge).2.map .editor))) :
    Hears W.engine (past ++ (event.data?.toList.map .delivered ++
      (event.op W.engine s.forge).2.map .editor)) (event.op W.engine s.forge).1 := by
  refine h.op event fun id hopen => h.unheard hW hvalid hne hproper.of_append hL
    fun id' hid' hsame => ?_
  -- the id that is opened is a new one
  have hfresh := hproper.fresh
  rw [edits_append, edits_delivered, openings_append, hopen, List.map_append] at hfresh
  exact List.disjoint_of_nodup_append hfresh (List.mem_map_of_mem hid')
    (List.mem_singleton.mpr hsame)

theorem step_hears (hW : W.Lawful) (hvalid : ValidEntries entries) (hne : entries.entries ≠ [])
    (hL : Linked W forge entries past s) {event : SessionEvent}
    (hstep : stepSession W s event = some (s', o)) (h : Hears W.engine past s.forge)
    (hproper : Proper W (past ++ o)) : Hears W.engine (past ++ o) s'.forge := by
  cases step_taken hstep with
  | handled event down hdown => exact h.handle hW hvalid hne hL event hproper
  | served turn up hup hserve =>
    obtain ⟨⟨c, xs⟩, -, heq⟩ := Option.map_eq_some_iff.mp hserve
    cases heq
    exact h.server xs

/-- **Run lemma.** -/
theorem run_hears (hW : W.Lawful) (hvalid : ValidEntries entries) (hne : entries.entries ≠ [])
    (hrouted : Routed forge) (hidle : forge.activeGenerationId = "") {steps : List SessionEvent}
    (hrun : exec (stepSession W) (.start W forge entries) steps = some (s, os))
    (hproper : Proper W os) : Hears W.engine os s.forge := by
  have hrule : Linked W forge entries ([] ++ os) s ∧
      (Proper W ([] ++ os) → Hears W.engine ([] ++ os) s.forge) := by
    refine exec_history (J := fun past s => Linked W forge entries past s ∧
      (Proper W past → Hears W.engine past s.forge)) ?_ ⟨?_, fun _ => ?_⟩ hrun
    · rintro past s event s' o ⟨hL, hH⟩ hstep
      exact ⟨step_linked hL hstep, fun hproper =>
        step_hears hW hvalid hne hL hstep (hH hproper.of_append) hproper⟩
    · exact ⟨⟨[], rfl⟩, ⟨[], rfl⟩, rfl, rfl⟩
    · exact ⟨hrouted, fun _ h => (by cases h), .refl _, fun hne => absurd hidle hne,
        fun hne => absurd hidle hne⟩
  exact hrule.2 hproper

/-- **What the editor hears of a generation.**  The module has just been connected, follows nothing,
and the manifest has an entry.  In every run of both ends, whatever is started, cancelled, refused
or on its way:

* the entries that the module has received for the generation that it follows are the first of those
  that the server has placed for the request with the id of that generation;
* they are all of them, when the frame that comes next is the complete of that generation. -/
theorem session_agrees (hW : W.Lawful) (hvalid : ValidEntries entries)
    (hne : entries.entries ≠ []) {events₀ : List ModuleEvent} {past₀ : List ModuleAction}
    (hreach : exec (toStep (ModuleEvent.op W.engine)) .start events₀ = some (forge, past₀))
    (hidle : forge.activeGenerationId = "") {steps : List SessionEvent}
    (hrun : exec (stepSession W) (.start W forge entries) steps = some (s, os))
    (hproper : Proper W os) (hactive : s.forge.activeGenerationId ≠ "") :
    (entriesSince (edits os) ≠ [] → ∃ req ∈ generated (edits os),
      req.generationId = s.forge.activeGenerationId ∧ ∃ placed, PlacedFor W os req placed ∧
        entriesSince (edits os) <+: placed.map AssetEntry.received) ∧
    ∀ data rest complete, s.downstream = data :: rest →
      parseServerMessage W.engine data = .complete complete →
      sameId complete.generationId s.forge.activeGenerationId → ∃ req ∈ generated (edits os),
        req.generationId = s.forge.activeGenerationId ∧ ∃ placed, PlacedFor W os req placed ∧
          entriesSince (edits os) = placed.map AssetEntry.received := by
  have hrouted : Routed forge := (exec_meets routes_composable (op_routes W.engine) hreach
    routed_start).1
  have hL := run_linked hrun
  have hH := run_hears hW hvalid hne hrouted hidle hrun hproper
  obtain ⟨reqs, hS⟩ := linked_serves hW hvalid hne hproper.seeds hL
  let p : Message → Bool := fun m => (W.parsed m).carries s.forge.activeGenerationId
  -- what is received came with what is heard
  have hentries : ∀ ms : List Message, heardMessages W.engine os = ms.map W.parsed →
      entriesSince (edits os) =
        ((ms.filter p).map W.parsed).flatMap ServerMessage.assets := by
    intro ms hheard
    rw [hH.entries hactive, hheard, filter_parsed]
  rcases hH.written hW hvalid hproper hS (hH.opened hactive) with
    hnone | ⟨i, req, hi, hmem, hid, hpre⟩
  · -- nothing is written with that id
    have hempty : ∀ ms, ms <+: writes (occurrences os) → ms.filter p = [] := by
      intro ms hms
      have hsub := hms.sublist.filter p
      exact List.sublist_nil.mp (hnone ▸ hsub)
    refine ⟨fun hsome => absurd ?_ hsome, fun data rest complete hdown hparse hsame => ?_⟩
    · obtain ⟨ms, hms, hheard⟩ := hL.heard
      rw [hentries ms hheard, hempty ms hms]
      rfl
    · obtain ⟨ms, m, hms, hheard, hm⟩ := hL.next hdown
      have hfilter := hempty _ hms
      rw [hparse] at hm
      have hcarries : p m = true :=
        (congrArg (ServerMessage.carries _) hm).trans (decide_eq_true hsame)
      rw [List.filter_eq_nil_iff] at hfilter
      exact absurd hcarries (hfilter m (List.mem_append_right _ (List.mem_singleton.mpr rfl)))
  · have hreqId : req.generationId ≠ "" := hid ▸ hactive
    refine ⟨fun hsome => ⟨req, hmem, hid, ?_⟩, fun data rest complete hdown hparse hsame =>
      ⟨req, hmem, hid, ?_⟩⟩
    · obtain ⟨ms, hms, hheard⟩ := hL.heard
      rw [hentries ms hheard] at hsome ⊢
      exact hS.part hW hvalid hproper hi hreqId ((hms.filter p).trans hpre) hsome
    · obtain ⟨ms, m, hms, hheard, hm⟩ := hL.next hdown
      rw [hparse] at hm
      have hcarries : p m = true :=
        (congrArg (ServerMessage.carries _) hm).trans (decide_eq_true hsame)
      have hpart := (hms.filter p).trans hpre
      rw [List.filter_append, List.filter_singleton, hcarries] at hpart
      rw [hentries ms hheard]
      exact hS.whole hW hvalid hproper hi hreqId hpart hm

end Sessions

/-- The server goes on with its work, with a recipe from the model. -/
def shrubWork (labels : List Label) : List SessionEvent :=
  labels.map fun label => .server (.orchestrator label)

def shrubDelivery : SessionEvent := .deliver (fun _ => loadLater) fun _ => true

/-- A second generation is started while the frames of the first are on their way, and its request
is read once the first is done.  Its entry is spawned, and its complete comes next. -/
def restartSteps : List SessionEvent :=
  [.editor (.start "a glade" (some 7) 70 shrubStart), .receive, .receive] ++
    shrubWork (callerSteps 9) ++ [.server .reader] ++
    shrubWork (goroutineSteps 0 12 (recipeAnswers gladeRecipe)) ++ [shrubDelivery,
      .editor (.start "a heath" none 70 { shrubStart with guid := "89ABCDEF0123" })] ++
    shrubWork (goroutineSteps 0 8 (recipeAnswers gladeRecipe)) ++ [.receive] ++
    shrubWork (callerSteps 9) ++ [.server .reader] ++
    shrubWork (goroutineSteps 1 15 (recipeAnswers gladeRecipe)) ++
    List.replicate 4 shrubDelivery ++
    [.editor (.loaded "shrub" ⟨some (.staticMesh 0), none⟩),
      .editor (.tick true [⟨⟨some 0, true, true, true, true, true⟩, []⟩])]

/-- The values of an action are those of the types, and its message is one that can be written. -/
def shrubAction : Action → Bool
  | .effect _ ⟨.now, t⟩ => 0 ≤ t ∧ t < 2 ^ 63
  | .effect _ ⟨.storeSnapshot, man⟩ => man.len < 2 ^ 31
  | .effect _ ⟨.send m, _⟩ => gladeMessage m
  | _ => true

theorem shrubAction_fits {i : ℕ} {ev : Event Eff Resp} (h : shrubAction (.effect i ev) = true) :
    InRange ev ∧ ∀ m, AetherForge.handed ev = some m → m.EachFloat halvesFormat.Writes := by
  obtain ⟨e, r⟩ := ev
  cases e with
  | send msg =>
    refine ⟨trivial, fun m hm => ?_⟩
    cases hm
    exact (gladeMessage_fits h).1
  | now =>
    have hrange : 0 ≤ r ∧ r < 2 ^ 63 := of_decide_eq_true h
    refine ⟨hrange, fun m hm => ?_⟩
    cases hm
  | storeSnapshot =>
    have hlen : r.len < 2 ^ 31 := of_decide_eq_true h
    refine ⟨hlen, fun m hm => ?_⟩
    cases hm
  | storeReady | llmInvoke | llmReturn | randUint64 | ctxErr | ctxDone =>
    refine ⟨trivial, fun m hm => ?_⟩
    cases hm

/-- The complete of the second generation comes next. -/
def completesNext (p : Session × List SessionAction) : Bool :=
  match p.1.downstream with
  | [data] =>
    match parseServerMessage plainEngine data with
    | .complete complete => sameId complete.generationId p.1.forge.activeGenerationId
    | _ => false
  | _ => false

/-- What the run comes to. -/
def restarted (p : Session × List SessionAction) : Bool :=
  (actions (occurrences p.2)).all shrubAction ∧
    openings (edits p.2) = ["gen-0123abcd", "gen-89abcdef"] ∧
    generated (edits p.2) = [gladeAsked, heathAsked] ∧
    (spawnedFor "gen-89abcdef" (edits p.2)).length = 1 ∧
    p.1.forge.activeGenerationId = "gen-89abcdef" ∧ (entriesSince (edits p.2)).length = 1 ∧
    completesNext p = true

theorem restart_runs :
    ∃ s os, exec (stepSession shrubPeers) (.start shrubPeers .start shrubAsset) restartSteps =
      some (s, os) ∧ restarted (s, os) = true := by
  have hend : (exec (stepSession shrubPeers) (.start shrubPeers .start shrubAsset)
      restartSteps).map restarted = some true := by decide +kernel
  obtain ⟨⟨s, os⟩, hrun, hrestarted⟩ := Option.map_eq_some_iff.mp hend
  exact ⟨s, os, hrun, hrestarted⟩

theorem proper_of_restarted {s : Session} {os : List SessionAction}
    (h : restarted (s, os) = true) : Proper shrubPeers os := by
  obtain ⟨hactions, hopenings, hasked, -⟩ := of_decide_eq_true h
  have hfits := List.all_eq_true.mp hactions
  constructor
  · exact seedsFit_shrub hasked
  · exact fun i ev hev => (shrubAction_fits (hfits _ hev)).1
  · exact fun i ev m hev => (shrubAction_fits (hfits _ hev)).2 m
  · rw [hopenings]
    decide

theorem session_agrees_shrub :
    ∃ s os, ∃ placed : List AetherForge.AssetEntry,
      exec (stepSession shrubPeers) (.start shrubPeers .start shrubAsset) restartSteps =
        some (s, os) ∧
      openings (edits os) = ["gen-0123abcd", "gen-89abcdef"] ∧ placed.length = 1 ∧
      PlacedFor shrubPeers os heathAsked placed ∧
      entriesSince (edits os) = placed.map AssetEntry.received := by
  obtain ⟨s, os, hrun, hrestarted⟩ := restart_runs
  have hreach : exec (toStep (ModuleEvent.op shrubPeers.engine)) .start [] =
      some (EditorModule.start, []) := rfl
  obtain ⟨-, hopenings, hasked, -, hactive, hlength, hnext⟩ := of_decide_eq_true hrestarted
  have hfollowed : s.forge.activeGenerationId ≠ "" := by
    rw [hactive]
    decide
  obtain ⟨-, hwhole⟩ := session_agrees shrubPeers_lawful validEntries_shrub (List.cons_ne_nil _ _)
    hreach rfl hrun (proper_of_restarted hrestarted) hfollowed
  simp only [completesNext] at hnext
  split at hnext
  · rename_i data hdown
    split at hnext
    · rename_i complete hparse
      obtain ⟨req, hreq, hid, placed, hplaced, hentries⟩ :=
        hwhole data [] complete hdown hparse (of_decide_eq_true hnext)
      rw [hasked, List.mem_pair] at hreq
      rcases hreq with rfl | rfl
      · rw [hactive] at hid
        exact absurd hid (by decide)
      · refine ⟨s, os, placed, hrun, hopenings, ?_, hplaced, hentries⟩
        rwa [hentries, List.length_map] at hlength
    · cases hnext
  · cases hnext

end AetherForge.Plugin
