import AetherForge.Plugin.SpawnOrder

/-!
# Callbacks in time

A callback can be late only because a generation was ended early while the callback of a completed
load was still to come: everything else that ends a generation waits for its entries, and each load
whose callback is to come has entries waiting for it.

* `Overtakes` — an early end while the callback of a completed load is to come;
* `Punctual` — the invariant: every load is of the open generation, and entries wait for it;
* `event_timely` — every event that overtakes no callback keeps it;
* `callbacks_in_time` — in a run of such events, every callback is delivered in its own generation.
-/

namespace AetherForge.Plugin

open Operation Transition

/-! ### The invariant -/

/-- The events that end an open generation, whatever is pending. -/
def StreamEvent.endsEarly : StreamEvent → Bool
  | .begin _ _ => true
  | .finish discard => discard
  | _ => false

/-- A generation is ended early while the callback of a load that has completed is to come. -/
def Overtakes (e : Streaming) (event : StreamEvent) : Prop :=
  event.endsEarly = true ∧ e.spawner.activeTransaction = true ∧
    ∃ load ∈ e.loads, load.completed = true

/-- Every load belongs to the open generation, and to a category of it in which entries wait. -/
structure Punctual (e : Streaming) : Prop where
  current : ∀ load ∈ e.loads, load.generation = e.generation
  held : ∀ load ∈ e.loads, ∃ rt, e.spawner.categories.find load.key = some rt ∧
    rt.loadHandle = some load.handle ∧ rt.waitingEntries ≠ []
  unrequested : ∀ key rt, e.spawner.categories.find key = some rt → rt.loadRequested = false →
    rt.loadedAsset = none

/-- The delivered callbacks find the generation that requested their load. -/
def StreamAction.InTime : StreamAction → Prop
  | .spawner _ => True
  | .delivered load _ generation _ _ => load.generation = generation

section Punctual

variable {e e' : Streaming}

/-- Where nothing waits, no callback is to come. -/
theorem Punctual.no_loads (hP : Punctual e)
    (hnone : ∀ key rt, e.spawner.categories.find key = some rt → rt.waitingEntries = []) :
    e.loads = [] := by
  rw [List.eq_nil_iff_forall_not_mem]
  intro load hload
  obtain ⟨rt, hfind, -, hwaits⟩ := hP.held load hload
  exact hwaits (hnone load.key rt hfind)

/-- No callback is to come, and no asset is there before it is requested. -/
theorem punctual_of_none (hloads : e.loads = [])
    (hunrequested : ∀ key rt, e.spawner.categories.find key = some rt → rt.loadRequested = false →
      rt.loadedAsset = none) : Punctual e := by
  have hnot : ∀ load, load ∉ e.loads := List.eq_nil_iff_forall_not_mem.mp hloads
  exact ⟨fun load h => absurd h (hnot load), fun load h => absurd h (hnot load), hunrequested⟩

theorem punctual_start : Punctual .start := punctual_of_none rfl fun _ _ h => nomatch h

/-- A change outside the categories and the loads. -/
theorem Punctual.congr (hP : Punctual e) (hloads : e'.loads = e.loads)
    (hgeneration : e'.generation = e.generation)
    (hcategories : e'.spawner.categories = e.spawner.categories) : Punctual e' := by
  obtain ⟨hcurrent, hheld, hunrequested⟩ := hP
  exact ⟨by rwa [hloads, hgeneration], by rwa [hloads, hcategories], by rwa [hcategories]⟩

/-- A change of one category that keeps its handle, and entries waiting where they do. -/
theorem Punctual.modify (hP : Punctual e) (key : String) {f : CategoryRuntime → CategoryRuntime}
    (hloads : e'.loads = e.loads) (hgeneration : e'.generation = e.generation)
    (hcategories : e'.spawner.categories = e.spawner.categories.modify key f)
    (hhandle : ∀ rt, (f rt).loadHandle = rt.loadHandle)
    (hwaiting : ∀ rt, rt.waitingEntries ≠ [] → (f rt).waitingEntries ≠ [])
    (hasset : ∀ rt, (rt.loadRequested = false → rt.loadedAsset = none) →
      (f rt).loadRequested = false → (f rt).loadedAsset = none) : Punctual e' := by
  obtain ⟨hcurrent, hheld, hunrequested⟩ := hP
  refine ⟨by rwa [hloads, hgeneration], fun load hload => ?_, fun key' rt' hfind => ?_⟩
  · rw [hloads] at hload
    obtain ⟨rt, hfind, hholds, hwaits⟩ := hheld load hload
    rw [hcategories, FoldedMap.find_modify, hfind]
    split
    · exact ⟨f rt, rfl, (hhandle rt).trans hholds, hwaiting rt hwaits⟩
    · exact ⟨rt, rfl, hholds, hwaits⟩
  · rw [hcategories, FoldedMap.find_modify] at hfind
    split at hfind
    · obtain ⟨rt, hrt, rfl⟩ := Option.map_eq_some_iff.mp hfind
      exact hasset rt (hunrequested key' rt hrt)
    · exact hunrequested key' rt' hfind

/-! ### Receiving entries in time -/

theorem queueEntry_punctual (hP : Punctual e) (entry : AssetEntry) :
    Punctual (ofSpawner (queueEntry entry true) e).1 := by
  cases hfind : e.spawner.categories.find entry.category with
  | none =>
    simp only [ofSpawner, queueEntry, hfind]
    exact hP
  | some rt =>
    simp only [ofSpawner, queueEntry, hfind]
    split
    · exact hP.congr rfl rfl rfl
    · refine hP.modify entry.category rfl rfl rfl (fun _ => rfl) (fun rt _ => ?_) fun _ h => h
      exact List.append_ne_nil_of_right_ne_nil _ (List.cons_ne_nil _ _)

/-- **A request** is made for an entry that then waits for it. -/
theorem requestedBy_punctual (hT : Tracked e) (hP : Punctual e) {entry : AssetEntry}
    {rt : CategoryRuntime} (hfind : e.spawner.categories.find entry.category = some rt)
    (hfirst : rt.loadRequested = false) :
    Punctual (ofSpawner (queueEntry entry true) (requestedBy entry.category e)).1 := by
  obtain ⟨hcurrent, hheld, hunrequested⟩ := hP
  have hfound : (requestedBy entry.category e).spawner.categories.find entry.category =
      some { rt with loadRequested := true, loadHandle := some e.spawner.requests } := by
    simp only [requestedBy, FoldedMap.find_modify, if_true, hfind, Option.map_some]
    rfl
  have hasset : rt.loadedAsset = none := hunrequested _ rt hfind hfirst
  simp only [ofSpawner, queueEntry, hfound, hasset, Option.isSome_none, Bool.false_and,
    Bool.false_eq_true, if_false]
  refine ⟨fun load hload => ?_, fun load hload => ?_, fun key' rt' hfind' hnot => ?_⟩
  · rcases List.mem_append.mp hload with hload | hload
    · exact hcurrent load hload
    · rw [List.mem_singleton.mp hload]
      rfl
  · simp only [FoldedMap.find_modify]
    rcases List.mem_append.mp hload with hload | hload
    · obtain ⟨other, hother, hholds, hwaits⟩ := hheld load hload
      by_cases hkey : foldKey load.key = foldKey entry.category
      · -- the category has requested nothing, so that it holds no handle
        rw [e.spawner.categories.find_congr hkey, hfind] at hother
        cases hother
        rw [((hT.awaits _ rt hfind).unrequested hfirst).1] at hholds
        cases hholds
      · simp only [requestedBy, FoldedMap.find_modify, if_neg hkey]
        exact ⟨other, hother, hholds, hwaits⟩
    · rw [List.mem_singleton.mp hload, if_pos rfl, hfound]
      refine ⟨_, rfl, rfl, ?_⟩
      exact List.append_ne_nil_of_right_ne_nil _ (List.cons_ne_nil _ _)
  · simp only [FoldedMap.find_modify] at hfind'
    by_cases hkey : foldKey key' = foldKey entry.category
    · rw [if_pos hkey, FoldedMap.find_congr _ hkey, hfound] at hfind'
      cases hfind'
      cases hnot
    · simp only [requestedBy, FoldedMap.find_modify, if_neg hkey] at hfind'
      exact hunrequested key' rt' hfind' hnot

/-- **Every way through the loop body.** -/
theorem enqueueEntry_punctual (entry : AssetEntry) (hT : Tracked e) (hP : Punctual e) :
    Punctual (ofSpawner (enqueueEntry entry loadLater) e).1 := by
  rcases enqueueEntry_cases entry e with ⟨why, -, hskipped⟩ | ⟨rt, hfind, ⟨-, hpathless⟩ |
    ⟨-, -, hqueued⟩ | ⟨hfirst, -, hrequests⟩⟩
  · rw [hskipped]
    exact hP.congr rfl rfl rfl
  · rw [hpathless]
    exact hP.modify entry.category rfl rfl rfl (fun _ => rfl) (fun _ h => h) fun _ _ hnot => by
      cases hnot
  · rw [hqueued]
    exact queueEntry_punctual hP entry
  · rw [hrequests]
    exact requestedBy_punctual hT hP hfind hfirst

/-! ### Delivering in time -/

theorem answered_loadRequested (ans : LoadAnswers) (rt : CategoryRuntime) :
    (rt.answered ans).loadRequested = rt.loadRequested := by
  unfold CategoryRuntime.answered
  split <;> rfl

/-- **A callback** takes its load with it, and leaves nothing waiting for it. -/
theorem callBack_punctual (hT : Tracked e) (hP : Punctual e) {load : Load} (hload : load ∈ e.loads)
    (ans : LoadAnswers) : Punctual (callBack load ans e).1 := by
  obtain ⟨hcurrent, hheld, hunrequested⟩ := hP
  obtain ⟨rt, hfind, hholds, -⟩ := hheld load hload
  rw [callBack_state]
  refine ⟨fun other hother => ?_, fun other hother => ?_, fun key rt' hfind' hnot => ?_⟩
  · exact hcurrent other (List.mem_of_mem_filter hother)
  · obtain ⟨hmem, hne⟩ := List.mem_filter.mp hother
    obtain ⟨rt', hfind', hholds', hwaits⟩ := hheld other hmem
    have hkey : foldKey other.key ≠ foldKey load.key := by
      intro hkey
      rw [e.spawner.categories.find_congr hkey, hfind] at hfind'
      cases hfind'
      rw [hholds, Option.some.injEq] at hholds'
      exact of_decide_eq_true hne hholds'.symm
    exact ⟨rt', by rw [find_loaded, if_neg hkey, hfind'], hholds', hwaits⟩
  · rw [find_loaded] at hfind'
    split at hfind'
    · -- a category that holds a handle has requested its load
      rename_i hkey
      rw [e.spawner.categories.find_congr hkey, hfind, Option.map_some] at hfind'
      cases hfind'
      rw [answered_loadRequested] at hnot
      rw [((hT.awaits _ rt hfind).unrequested hnot).1] at hholds
      cases hholds
    · exact hunrequested key rt' hfind' hnot

/-- The invariants are kept, and what is delivered is delivered in time. -/
def Timely (e : Streaming) (o : List StreamAction) (e' : Streaming) : Prop :=
  Tracked e → Punctual e → (Tracked e' ∧ Punctual e') ∧ ∀ x ∈ o, x.InTime

theorem timely_composable : Composable Timely := by
  constructor
  · exact fun e hT hP => ⟨⟨hT, hP⟩, fun x hx => absurd hx List.not_mem_nil⟩
  · intro e o e' o' e'' h h' hT hP
    obtain ⟨⟨hT', hP'⟩, ho⟩ := h hT hP
    obtain ⟨hkept, ho'⟩ := h' hT' hP'
    exact ⟨hkept, List.forall_mem_append.mpr ⟨ho, ho'⟩⟩

theorem ofSpawner_inTime (f : SpawnOp) (e : Streaming) : ∀ x ∈ (ofSpawner f e).2, x.InTime := by
  intro x hx
  obtain ⟨a, -, rfl⟩ := List.mem_map.mp hx
  trivial

/-- An operation of the spawner. -/
theorem ofSpawner_timely {f : SpawnOp} (hT : KeepsTrack (ofSpawner f))
    (hP : ∀ e, Tracked e → Punctual e → Punctual (ofSpawner f e).1) : Meets Timely (ofSpawner f) :=
  fun e hTe hPe => ⟨⟨hT e hTe, hP e hTe hPe⟩, ofSpawner_inTime f e⟩

theorem deliver_timely (handle : ℕ) (ans : LoadAnswers) : Meets Timely (deliver handle ans) := by
  intro e hT hP
  refine ⟨⟨deliver_tracked handle ans hT, ?_⟩, ?_⟩
  · unfold deliver
    split
    · exact hP
    · rename_i load hload
      exact callBack_punctual hT hP (List.mem_of_find?_eq_some hload) ans
  · unfold deliver
    split
    · exact fun x hx => absurd hx List.not_mem_nil
    · rename_i load hload
      refine List.forall_mem_append.mpr ⟨fun x hx => ?_, ofSpawner_inTime _ _⟩
      rw [List.mem_singleton.mp hx]
      exact hP.current load (List.mem_of_find?_eq_some hload)

/-! ### Spawning in time -/

theorem takeEntry_punctual (entry : AssetEntry) (ans : SpawnAnswers) (hP : Punctual e) :
    Punctual (ofSpawner (takeEntry entry ans) e).1 := by
  cases hfind : e.spawner.categories.find entry.category with
  | none =>
    simp only [ofSpawner, takeEntry, hfind]
    exact hP.congr rfl rfl rfl
  | some rt =>
    simp only [ofSpawner, takeEntry, hfind]
    obtain ⟨⟨a, hshown, ha⟩, -, -, hcategories⟩ := spawnEntry_spawns entry rt ans
      { e.spawner with readyQueueHead := e.spawner.readyQueueHead + 1 }
    rw [hshown, List.foldl_cons, List.foldl_nil, observe_taken ha]
    rcases hcategories with hsame | hmarked
    · exact hP.congr rfl rfl hsame
    · exact hP.modify entry.category rfl rfl hmarked (fun _ => rfl) (fun _ h => h) fun _ h => h

theorem compact_punctual (hP : Punctual e) : Punctual (ofSpawner compact e).1 := by
  simp only [ofSpawner, compact]
  split <;> exact hP.congr rfl rfl rfl

/-- Nothing waits when nothing is pending. -/
theorem waiting_of_drained {s : Spawner} (hpending : s.numPendingEntries = 0) {key : String}
    {rt : CategoryRuntime} (hfind : s.categories.find key = some rt) : rt.waitingEntries = [] := by
  have hwaiting : s.waitingEntries = [] :=
    (List.append_eq_nil_iff.mp (pendingEntries_eq_nil hpending)).2
  obtain ⟨key', hmem, -⟩ := FoldedMap.mem_of_find hfind
  exact List.flatMap_eq_nil_iff.mp hwaiting rt (List.mem_map_of_mem hmem)

/-- A generation that is finalized with nothing pending has no callback to come. -/
theorem finalizeGeneration_punctual (hpending : e.spawner.numPendingEntries = 0)
    (hP : Punctual e) : Punctual (ofSpawner finalizeGeneration e).1 := by
  refine punctual_of_none ?_ fun _ _ h => nomatch h
  exact hP.no_loads fun _ _ hfind => waiting_of_drained hpending hfind

theorem finalizeIfDrained_punctual (hP : Punctual e) :
    Punctual (ofSpawner finalizeIfDrained e).1 := by
  simp only [ofSpawner, finalizeIfDrained]
  split
  · rename_i hdrained
    exact finalizeGeneration_punctual hdrained.2 hP
  · exact hP

/-! ### Ending in time -/

/-- The loads that are cancelled are gone. -/
theorem foldl_cancelled (handles : List ℕ) (e : Streaming) :
    ((handles.map SpawnAction.cancelled).foldl observe e).loads =
      e.loads.filter (·.handle ∉ handles) := by
  induction handles generalizing e with
  | nil => simp
  | cons handle handles ih =>
    rw [List.map_cons, List.foldl_cons, ih, observe, List.filter_filter]
    refine List.filter_congr fun load _ => ?_
    simp [Bool.and_comm]

/-- **A generation that is ended early** before any of its loads has completed cancels them
all. -/
theorem discardPending_loads (hP : Punctual e) (hnot : ∀ load ∈ e.loads, load.completed = false) :
    ((discardPending (hasLoadCompleted e) e.spawner).2.foldl observe e).loads = [] := by
  have hskipped : (e.spawner.pendingEntries.map (SpawnAction.skipped · .discarded)).foldl observe
      e = e := by
    refine foldl_observe_same (fun a ha e => ?_) e
    obtain ⟨entry, -, rfl⟩ := List.mem_map.mp ha
    rfl
  rw [discardPending, List.foldl_append, hskipped, foldl_cancelled, List.filter_eq_nil_iff]
  intro load hload hkept
  obtain ⟨rt, hfind, hholds, -⟩ := hP.held load hload
  obtain ⟨key, hmem, -⟩ := FoldedMap.mem_of_find hfind
  have hcoming : hasLoadCompleted e load.handle = false := by
    rw [hasLoadCompleted, Bool.not_eq_false', List.any_eq_true]
    exact ⟨load, hload, by simp [hnot load hload]⟩
  refine of_decide_eq_true hkept (List.mem_filterMap.mpr ⟨rt, List.mem_map_of_mem hmem, ?_⟩)
  rw [hholds, Option.filter_some, hcoming]
  rfl

/-- A closed generation has no callback to come. -/
theorem closed_loads (hI : Consistent e.spawner) (hP : Punctual e)
    (ha : e.spawner.activeTransaction = false) : e.loads = [] := by
  refine hP.no_loads fun key rt hfind => ?_
  rw [(hI.closed ha).1] at hfind
  cases hfind

theorem endGeneration_loads (hI : Consistent e.spawner) (hP : Punctual e)
    (hnot : e.spawner.activeTransaction = true → ∀ load ∈ e.loads, load.completed = false) :
    (ofSpawner (endGeneration true (hasLoadCompleted e)) e).1.loads = [] := by
  rcases Bool.eq_false_or_eq_true e.spawner.activeTransaction with ha | ha
  · simp only [ofSpawner, endGeneration, if_pos ha, if_true, seq, List.foldl_append]
    exact discardPending_loads hP (hnot ha)
  · simp only [ofSpawner, endGeneration, ha, Bool.false_eq_true, if_false]
    exact closed_loads hI hP ha

/-- A generation that is opened in time starts with no callback to come. -/
theorem streamBegin_punctual (generationId : String) (manifest : Option (TMap ManifestAssetEntry))
    (hI : Consistent e.spawner) (hP : Punctual e)
    (hnot : e.spawner.activeTransaction = true → ∀ load ∈ e.loads, load.completed = false) :
    Punctual (streamBegin generationId manifest e).1 := by
  have hloads := endGeneration_loads hI hP hnot
  simp only [streamBegin, beginGeneration, ofSpawner_seq, seq]
  refine punctual_of_none hloads fun key rt hfind _ => ?_
  obtain ⟨entry, rfl⟩ := find_opened hfind
  rfl

theorem streamFinish_punctual (discard : Bool) (hI : Consistent e.spawner) (hP : Punctual e)
    (hnot : discard = true → e.spawner.activeTransaction = true →
      ∀ load ∈ e.loads, load.completed = false) : Punctual (streamFinish discard e).1 := by
  cases discard with
  | true =>
    refine punctual_of_none (endGeneration_loads hI hP (hnot rfl)) fun key rt hfind => ?_
    obtain ⟨-, ⟨hempty, -⟩ | ⟨hsame, -⟩⟩ :=
      endGeneration_cases true (hasLoadCompleted e) e.spawner
    · rw [streamFinish, ofSpawner, hempty] at hfind
      cases hfind
    · rw [streamFinish, ofSpawner, hsame] at hfind
      exact hP.unrequested key rt hfind
  | false =>
    simp only [streamFinish, ofSpawner, endGeneration, Bool.false_eq_true, if_false]
    split
    · split
      · rename_i hpending
        exact finalizeGeneration_punctual hpending hP
      · exact hP.congr rfl rfl rfl
    · exact hP

/-! ### Events in time -/

theorem publishPending_timely : Meets Timely (ofSpawner publishPending) :=
  ofSpawner_timely publishPending_tracked fun _ _ hP => hP.congr rfl rfl rfl

theorem streamEnqueue_timely (entries : List AssetEntry) :
    Meets Timely (streamEnqueue entries) := by
  refine streamEnqueue_meets timely_composable (fun entry e hT hP => ?_) publishPending_timely
    entries
  refine ⟨?_, ofSpawner_inTime _ e⟩
  rw [ofSpawner_receiveEntry]
  exact ⟨enqueueEntry_tracked entry hT, enqueueEntry_punctual entry hT hP⟩

theorem streamTick_timely (world : Bool) (turns : List StreamTurn) :
    Meets Timely (streamTick world turns) := by
  have htake : ∀ entry ans, Meets Timely (ofSpawner (takeEntry entry ans)) := fun entry ans =>
    ofSpawner_timely (fun _ hT => takeEntry_tracked entry ans hT)
      fun _ _ hP => takeEntry_punctual entry ans hP
  have hdrain : ∀ turns, Meets Timely (streamDrain turns) :=
    streamDrain_meets timely_composable (fun e entry ans _ => htake entry ans e) deliver_timely
  have hcompact : Meets Timely (ofSpawner compact) :=
    ofSpawner_timely compact_tracked fun _ _ hP => compact_punctual hP
  have hfinalize : Meets Timely (ofSpawner finalizeIfDrained) :=
    ofSpawner_timely finalizeIfDrained_tracked fun _ _ hP => finalizeIfDrained_punctual hP
  exact streamTick_meets timely_composable hdrain hcompact publishPending_timely hfinalize world
    turns

/-- A completed load keeps its key and its generation. -/
theorem completeLoad_punctual (handle : ℕ) (hP : Punctual e) :
    Punctual (completeLoad handle e).1 := by
  obtain ⟨hcurrent, hheld, hunrequested⟩ := hP
  refine ⟨fun load hload => ?_, fun load hload => ?_, hunrequested⟩
  · obtain ⟨before, hbefore, rfl⟩ := List.mem_map.mp hload
    split <;> exact hcurrent before hbefore
  · obtain ⟨before, hbefore, rfl⟩ := List.mem_map.mp hload
    split <;> exact hheld before hbefore

theorem collectAsset_punctual (key : String) (hP : Punctual e) :
    Punctual (collectAsset key e).1 := by
  refine hP.modify key rfl rfl rfl (fun rt => ?_) (fun rt hwaits => ?_) fun rt hasset => ?_
  · unfold CategoryRuntime.collected
    split <;> rfl
  · rwa [collected_waiting]
  · unfold CategoryRuntime.collected
    split
    · exact hasset
    · exact fun _ => rfl

/-- **Every event that overtakes no callback** keeps the callbacks in time. -/
theorem event_timely {event : StreamEvent} (hI : Consistent e.spawner)
    (hnot : ¬Overtakes e event) : Timely e (event.op e).2 (event.op e).1 := by
  intro hT hP
  have hearly : event.endsEarly = true → e.spawner.activeTransaction = true →
      ∀ load ∈ e.loads, load.completed = false := by
    intro hends ha load hload
    exact Bool.eq_false_iff.mpr fun hcompleted => hnot ⟨hends, ha, load, hload, hcompleted⟩
  cases event with
  | begin generationId manifest =>
    exact ⟨⟨streamBegin_tracked generationId manifest e hT,
      streamBegin_punctual generationId manifest hI hP (hearly rfl)⟩, ofSpawner_inTime _ e⟩
  | enqueue entries => exact streamEnqueue_timely entries e hT hP
  | complete handle =>
    exact ⟨⟨completeLoad_tracked handle e hT, completeLoad_punctual handle hP⟩,
      fun x hx => absurd hx List.not_mem_nil⟩
  | deliver handle ans => exact deliver_timely handle ans e hT hP
  | collect key =>
    exact ⟨⟨collectAsset_tracked key e hT, collectAsset_punctual key hP⟩,
      fun x hx => absurd hx List.not_mem_nil⟩
  | tick world turns => exact streamTick_timely world turns e hT hP
  | finish discard =>
    exact ⟨⟨endGeneration_tracked discard (hasLoadCompleted e) e hT,
      streamFinish_punctual discard hI hP hearly⟩, ofSpawner_inTime _ e⟩

end Punctual

/-- **Run lemma.**  Events that overtake no callback deliver every callback in time. -/
theorem run_callbacksInTime {events : List StreamEvent} {e : Streaming} {past : List StreamAction}
    (hruns : Along (toStep StreamEvent.op) (fun e event => ¬Overtakes e event) .start events)
    (h : exec (toStep StreamEvent.op) .start events = some (e, past)) : ∀ x ∈ past, x.InTime := by
  have hrule : (Consistent e.spawner ∧ Tracked e ∧ Punctual e) ∧ ∀ x ∈ past, x.InTime := by
    refine exec_invariant_along (I := fun e => Consistent e.spawner ∧ Tracked e ∧ Punctual e)
      ?_ ⟨consistent_start, tracked_start, punctual_start⟩ hruns h
    rintro e event e' o ⟨hI, hT, hP⟩ hnot hstep
    have hop : event.op e = (e', o) := Option.some.inj hstep
    have hI' := event_consistent event hI
    obtain ⟨hkept, hshown⟩ := event_timely hI hnot hT hP
    rw [hop] at hI' hkept hshown
    exact ⟨⟨hI', hkept⟩, hshown⟩
  exact hrule.2

/-- **Callbacks in time.**  In a run in which no generation is ended early while the callback of a
completed load is to come, every callback is delivered in the generation that requested its load. -/
theorem callbacks_in_time {events : List StreamEvent} {e : Streaming} {past : List StreamAction}
    (hruns : Along (toStep StreamEvent.op) (fun e event => ¬Overtakes e event) .start events)
    (h : exec (toStep StreamEvent.op) .start events = some (e, past)) :
    ∀ load ans generation before after,
      .delivered load ans generation before after ∈ past → load.generation = generation :=
  fun _ _ _ _ _ hmem => run_callbacksInTime hruns h _ hmem

instance (e : Streaming) (event : StreamEvent) : Decidable (Overtakes e event) :=
  inferInstanceAs (Decidable (_ ∧ _ ∧ ∃ load ∈ e.loads, load.completed = true))

/-- The trees are loaded, and another generation is started while the ferns are loading. -/
def heathCut : List StreamEvent := heathEvents ++ [.begin "gen-2" (some heathManifest)]

/-- The generation in which a callback is delivered. -/
def StreamAction.deliveredIn : StreamAction → Option ℕ
  | .spawner _ => none
  | .delivered _ _ generation _ _ => some generation

theorem callbacks_in_time_heath :
    ∃ e past load ans before after,
      exec (toStep StreamEvent.op) .start heathCut = some (e, past) ∧ e.generation = 2 ∧
      .delivered load ans 1 before after ∈ past ∧ load.generation = 1 := by
  have hruns : Along (toStep StreamEvent.op) (fun e event => ¬Overtakes e event) .start
      heathCut := by
    decide +kernel
  have hrun : (exec (toStep StreamEvent.op) .start heathCut).map (fun p =>
      (p.1.generation, p.2.filterMap StreamAction.deliveredIn)) = some (2, [1]) := by
    decide +kernel
  obtain ⟨⟨e, past⟩, h, hstate⟩ := Option.map_eq_some_iff.mp hrun
  obtain ⟨hgeneration, hdelivered⟩ := Prod.mk.inj hstate
  have hmem : 1 ∈ past.filterMap StreamAction.deliveredIn := hdelivered ▸ List.mem_cons_self
  obtain ⟨x, hx, hsome⟩ := List.mem_filterMap.mp hmem
  cases x with
  | spawner a => cases hsome
  | delivered load ans generation before after =>
    cases hsome
    exact ⟨e, past, load, ans, before, after, h, hgeneration, hx,
      callbacks_in_time hruns h load ans 1 before after hx⟩

end AetherForge.Plugin
