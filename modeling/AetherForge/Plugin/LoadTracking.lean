import AetherForge.Plugin.Streaming

/-!
# Which loads entries wait for

An entry waits in its category only while the category has requested its load and the callback of
that load is still to come: a category that has nothing to expect has failed, so that its entries
are skipped, or holds its asset, so that they go to the queue.

* `Awaits` — the state of one category, against the loads whose callback is to come;
* `Tracked` — the invariant: every category is in such a state, and the handles are distinct;
* `event_tracked` — every event keeps it;
* `Tracked.expects` — what an entry waits for.
-/

namespace AetherForge.Plugin

open Operation Transition

/-! ### The invariant -/

/-- The callback of a handle of this generation is to come, for this category. -/
def Expected (e : Streaming) (handle : ℕ) (key : String) : Prop :=
  ∃ load ∈ e.loads, load.handle = handle ∧ load.generation = e.generation ∧
    foldKey load.key = foldKey key

/-- A category that has requested its load has failed, holds its asset, or expects its callback;
entries wait only where neither of the first two is the case. -/
structure Awaits (e : Streaming) (key : String) (rt : CategoryRuntime) : Prop where
  unrequested : rt.loadRequested = false → rt.loadHandle = none ∧ rt.waitingEntries = []
  requested : rt.loadRequested = true → rt.loadFailed = true ∨
    ∃ handle, rt.loadHandle = some handle ∧ (rt.loadedAsset.isSome = true ∨ Expected e handle key)
  waiting : rt.waitingEntries ≠ [] → rt.loadFailed = false ∧ rt.loadedAsset = none

structure Tracked (e : Streaming) : Prop where
  distinct : (e.loads.map Load.handle).Nodup
  fresh : ∀ load ∈ e.loads, load.handle < e.spawner.requests
  awaits : ∀ key rt, e.spawner.categories.find key = some rt → Awaits e key rt

theorem tracked_start : Tracked .start :=
  ⟨List.nodup_nil, fun _ h => absurd h List.not_mem_nil, fun _ _ h => nomatch h⟩

/-! ### What becomes of a queued entry -/

/-- Why an entry that was taken from the queue is skipped. -/
def SkipReason.whileSpawning : SkipReason → Bool
  | .noGround | .notStaticMesh | .noComponent | .notSpawnable | .spawnFailed => true
  | _ => false

/-- The entry that was taken from the queue. -/
def SpawnAction.takenEntry : SpawnAction → Option AssetEntry
  | .spawned _ entry _ => some entry
  | .skipped entry why => if why.whileSpawning then some entry else none
  | _ => none

/-- The manager does not notice what becomes of an entry. -/
theorem observe_taken {a : SpawnAction} {entry : AssetEntry} (h : a.takenEntry = some entry)
    (e : Streaming) : observe e a = e := by
  cases a with
  | spawned | skipped => rfl
  | opened | received | requested | cancelled | finalized => cases h

section Tracking

variable {e e' : Streaming}

/-- **What an entry waits for**: a load that its category has requested, whose callback is to
come. -/
theorem Tracked.expects (hT : Tracked e) {key : String} {rt : CategoryRuntime}
    (hfind : e.spawner.categories.find key = some rt) (hwaiting : rt.waitingEntries ≠ []) :
    rt.loadRequested = true ∧ ∃ load ∈ e.loads, rt.loadHandle = some load.handle ∧
      load.generation = e.generation ∧ foldKey load.key = foldKey key := by
  obtain ⟨hunrequested, hrequested, hwaits⟩ := hT.awaits key rt hfind
  have hload : rt.loadRequested = true := by
    by_contra hnot
    exact hwaiting (hunrequested (Bool.eq_false_iff.mpr hnot)).2
  refine ⟨hload, ?_⟩
  obtain ⟨hfailed, hasset⟩ := hwaits hwaiting
  rcases hrequested hload with hfail | ⟨handle, hhandle, hloaded | ⟨load, hmem, hsame, hrest⟩⟩
  · exact absurd (hfailed.symm.trans hfail) Bool.false_ne_true
  · rw [hasset] at hloaded
    exact absurd hloaded Bool.false_ne_true
  · exact ⟨load, hmem, hhandle.trans (congrArg some hsame.symm), hrest⟩

/-- What is expected depends on the loads of the generation. -/
theorem Awaits.mono {key : String} {rt : CategoryRuntime} (h : Awaits e key rt)
    (hexpected : ∀ handle, rt.loadHandle = some handle → Expected e handle key →
      Expected e' handle key) : Awaits e' key rt := by
  refine ⟨h.unrequested, fun hrequested => ?_, h.waiting⟩
  rcases h.requested hrequested with hfailed | ⟨handle, hhandle, hloaded | hcoming⟩
  · exact .inl hfailed
  · exact .inr ⟨handle, hhandle, .inl hloaded⟩
  · exact .inr ⟨handle, hhandle, .inr (hexpected handle hhandle hcoming)⟩

/-- A change outside the categories and the loads. -/
theorem Tracked.congr (hT : Tracked e) (hloads : e'.loads = e.loads)
    (hgeneration : e'.generation = e.generation)
    (hcategories : e'.spawner.categories = e.spawner.categories)
    (hrequests : e'.spawner.requests = e.spawner.requests) : Tracked e' := by
  obtain ⟨hdistinct, hfresh, hawaits⟩ := hT
  refine ⟨by rwa [hloads], by rwa [hloads, hrequests], fun key rt hfind => ?_⟩
  rw [hcategories] at hfind
  refine (hawaits key rt hfind).mono fun handle _ hexpected => ?_
  rwa [Expected, hloads, hgeneration]

/-- A change of one category. -/
theorem Tracked.modify (hT : Tracked e) (key : String) {f : CategoryRuntime → CategoryRuntime}
    (hloads : e'.loads = e.loads) (hgeneration : e'.generation = e.generation)
    (hcategories : e'.spawner.categories = e.spawner.categories.modify key f)
    (hrequests : e'.spawner.requests = e.spawner.requests)
    (hf : ∀ key' rt, e.spawner.categories.find key' = some rt → foldKey key' = foldKey key →
      Awaits e key' rt → Awaits e key' (f rt)) : Tracked e' := by
  obtain ⟨hdistinct, hfresh, hawaits⟩ := hT
  refine ⟨by rwa [hloads], by rwa [hloads, hrequests], fun key' rt' hfind => ?_⟩
  have hmono : ∀ rt, Awaits e key' rt → Awaits e' key' rt := fun rt h =>
    h.mono fun handle _ hexpected => by rwa [Expected, hloads, hgeneration]
  rw [hcategories, FoldedMap.find_modify] at hfind
  split at hfind
  · rename_i hkey
    obtain ⟨rt, hrt, rfl⟩ := Option.map_eq_some_iff.mp hfind
    exact hmono _ (hf key' rt hrt hkey (hawaits key' rt hrt))
  · exact hmono rt' (hawaits key' rt' hfind)

/-! ### Receiving entries -/

/-- The end of the loop body shows nothing. -/
theorem queueEntry_quiet (entry : AssetEntry) (assetValid : Bool) (s : Spawner) :
    (queueEntry entry assetValid s).2 = [] := by
  unfold queueEntry
  split
  · rfl
  · split <;> rfl

/-- A request made in the place of a category that has made none. -/
def requestedBy (key : String) (e : Streaming) : Streaming where
  spawner := { e.spawner with
    categories := (e.spawner.categories.modify key .requested).modify key fun rt =>
      { rt with loadHandle := some e.spawner.requests }
    requests := e.spawner.requests + 1 }
  loads := e.loads ++ [⟨e.spawner.requests, key, e.generation, false⟩]
  generation := e.generation

theorem requestedBy_tracked (hT : Tracked e) {key : String} {rt : CategoryRuntime}
    (hfind : e.spawner.categories.find key = some rt) (hnot : rt.loadRequested = false) :
    Tracked (requestedBy key e) := by
  obtain ⟨hdistinct, hfresh, hawaits⟩ := hT
  refine ⟨?_, ?_, ?_⟩
  · -- the handle is new
    rw [requestedBy, List.map_append, List.map_singleton]
    refine hdistinct.append (List.nodup_singleton _) (List.disjoint_singleton.mpr ?_)
    rintro hmem
    obtain ⟨load, hload, heq⟩ := List.mem_map.mp hmem
    exact absurd heq (Nat.ne_of_lt (hfresh load hload))
  · intro load hload
    rcases List.mem_append.mp hload with hload | hload
    · exact Nat.lt_succ_of_lt (hfresh load hload)
    · rw [List.mem_singleton.mp hload]
      exact Nat.lt_succ_self _
  · intro key' rt' hfind'
    simp only [requestedBy, FoldedMap.find_modify] at hfind'
    by_cases hkey : foldKey key' = foldKey key
    · rw [if_pos hkey, if_pos hkey, e.spawner.categories.find_congr hkey, hfind] at hfind'
      cases hfind'
      obtain ⟨-, hnone⟩ := (hawaits key rt hfind).unrequested hnot
      refine ⟨fun hnever => ?_, fun _ => .inr ⟨e.spawner.requests, rfl, .inr ?_⟩,
        fun h => absurd hnone h⟩
      · cases hnever
      · exact ⟨_, List.mem_append_right _ List.mem_cons_self, rfl, rfl, hkey.symm⟩
    · rw [if_neg hkey, if_neg hkey] at hfind'
      refine (hawaits key' rt' hfind').mono fun handle _ hexpected => ?_
      obtain ⟨load, hload, hrest⟩ := hexpected
      exact ⟨load, List.mem_append_left _ hload, hrest⟩

/-- **What the loop body can do**, when loads are asynchronous: it skips the entry, or queues it in
a category that has requested its load, before or now. -/
theorem enqueueEntry_cases (entry : AssetEntry) (e : Streaming) :
    (∃ why, (why = .unknownCategory ∨ why = .loadFailed) ∧
      ofSpawner (enqueueEntry entry loadLater) e = ofSpawner (skipEntry entry why) e) ∨
    ∃ rt, e.spawner.categories.find entry.category = some rt ∧
      ((rt.loadRequested = false ∧ ofSpawner (enqueueEntry entry loadLater) e =
          ofSpawner (skipEntry entry .noAssetPath) { e with spawner := { e.spawner with
            categories := e.spawner.categories.modify entry.category .pathless } }) ∨
        (rt.loadRequested = true ∧ rt.loadFailed = false ∧
          ofSpawner (enqueueEntry entry loadLater) e = ofSpawner (queueEntry entry true) e) ∨
        (rt.loadRequested = false ∧ rt.loadFailed = false ∧
          ofSpawner (enqueueEntry entry loadLater) e =
            ((ofSpawner (queueEntry entry true) (requestedBy entry.category e)).1,
              [.spawner (.requested e.spawner.requests entry.category)]))) := by
  cases hfind : e.spawner.categories.find entry.category with
  | none =>
    refine .inl ⟨.unknownCategory, .inl rfl, ?_⟩
    simp only [ofSpawner, enqueueEntry, hfind]
  | some rt =>
    by_cases hfailed : rt.loadFailed = true
    · refine .inl ⟨.loadFailed, .inr rfl, ?_⟩
      simp only [ofSpawner, enqueueEntry, hfind, if_pos hfailed]
    · have hnot : rt.loadFailed = false := Bool.eq_false_iff.mpr hfailed
      refine .inr ⟨rt, rfl, ?_⟩
      by_cases hrequested : rt.loadRequested = true
      · refine .inr (.inl ⟨hrequested, hnot, ?_⟩)
        simp only [ofSpawner, enqueueEntry, hfind, if_neg hfailed, if_pos hrequested]
        rfl
      · have hfirst : rt.loadRequested = false := Bool.eq_false_iff.mpr hrequested
        cases hpath : rt.assetPath with
        | none =>
          refine .inl ⟨hfirst, ?_⟩
          simp only [ofSpawner, enqueueEntry, hfind, if_neg hfailed, if_neg hrequested, hpath]
          rfl
        | some path =>
          refine .inr (.inr ⟨hfirst, hnot, ?_⟩)
          simp only [ofSpawner, enqueueEntry, hfind, if_neg hfailed, if_neg hrequested, hpath, seq,
            queueEntry_quiet, List.append_nil]
          rfl

/-- An entry of a category that has requested its load and has not failed finds the asset, or
waits. -/
theorem queueEntry_tracked (hT : Tracked e) {entry : AssetEntry} {rt : CategoryRuntime}
    (hfind : e.spawner.categories.find entry.category = some rt)
    (hrequested : rt.loadRequested = true) (hfailed : rt.loadFailed = false) :
    Tracked (ofSpawner (queueEntry entry true) e).1 := by
  simp only [ofSpawner, queueEntry, hfind, Bool.and_true]
  split
  · exact hT.congr rfl rfl rfl rfl
  · rename_i hasset
    refine hT.modify entry.category rfl rfl rfl rfl fun key' rt' hfind' hkey h => ?_
    rw [e.spawner.categories.find_congr hkey, hfind] at hfind'
    cases hfind'
    refine ⟨fun hnot => absurd (hrequested.symm.trans hnot) (by simp), h.requested, fun _ => ?_⟩
    exact ⟨hfailed, Option.not_isSome_iff_eq_none.mp hasset⟩

/-- **Every way through the loop body** keeps the invariant. -/
theorem enqueueEntry_tracked (entry : AssetEntry) (hT : Tracked e) :
    Tracked (ofSpawner (enqueueEntry entry loadLater) e).1 := by
  rcases enqueueEntry_cases entry e with ⟨why, -, hskipped⟩ | ⟨rt, hfind, ⟨hfirst, hpathless⟩ |
    ⟨hrequested, hfailed, hqueued⟩ | ⟨hfirst, hfailed, hrequests⟩⟩
  · rw [hskipped]
    exact hT.congr rfl rfl rfl rfl
  · rw [hpathless]
    refine Tracked.congr (e := { e with spawner := { e.spawner with
      categories := e.spawner.categories.modify entry.category .pathless } }) ?_ rfl rfl rfl rfl
    refine hT.modify entry.category rfl rfl rfl rfl fun key' rt' hfind' hkey h => ?_
    rw [e.spawner.categories.find_congr hkey, hfind] at hfind'
    cases hfind'
    exact ⟨nofun, fun _ => .inl rfl, fun hwaiting => absurd (h.unrequested hfirst).2 hwaiting⟩
  · rw [hqueued]
    exact queueEntry_tracked hT hfind hrequested hfailed
  · rw [hrequests]
    have hfound : (requestedBy entry.category e).spawner.categories.find entry.category =
        some { rt with loadRequested := true, loadHandle := some e.spawner.requests } := by
      simp only [requestedBy, FoldedMap.find_modify, if_true, hfind, Option.map_some]
      rfl
    exact queueEntry_tracked (requestedBy_tracked hT hfind hfirst) hfound rfl hfailed

/-- A received entry is shown, and processed. -/
theorem ofSpawner_receiveEntry (entry : AssetEntry) (e : Streaming) :
    ofSpawner (receiveEntry (entry, loadLater)) e =
      ((ofSpawner (enqueueEntry entry loadLater) e).1,
        .spawner (.received entry) :: (ofSpawner (enqueueEntry entry loadLater) e).2) := by
  rw [receiveEntry, ofSpawner_seq]
  rfl

/-! ### Callbacks -/

/-- What a callback makes of its category. -/
def CategoryRuntime.answered (ans : LoadAnswers) (rt : CategoryRuntime) : CategoryRuntime :=
  match ans.loaded rt with
  | none => rt.failed
  | some asset => rt.promoted asset

/-- **The categories after a callback.** -/
theorem find_loaded (key : String) (ans : LoadAnswers) (s : Spawner) (key' : String) :
    (onCategoryAssetLoaded key ans s).1.categories.find key' =
      if foldKey key' = foldKey key then (s.categories.find key').map (.answered ans)
      else s.categories.find key' := by
  cases hfind : s.categories.find key with
  | none =>
    simp only [onCategoryAssetLoaded, hfind]
    split
    · rename_i hkey
      rw [s.categories.find_congr hkey, hfind]
      rfl
    · rfl
  | some rt =>
    cases hloaded : ans.loaded rt with
    | none | some asset =>
      simp only [onCategoryAssetLoaded, hfind, hloaded, FoldedMap.find_modify]
      split
      · rename_i hkey
        rw [s.categories.find_congr hkey, hfind, Option.map_some, Option.map_some,
          CategoryRuntime.answered, hloaded]
      · rfl

/-- A callback leaves the manager alone, and requests nothing. -/
theorem ofSpawner_loaded (key : String) (ans : LoadAnswers) (e : Streaming) :
    (ofSpawner (onCategoryAssetLoaded key ans) e).1 =
      { e with spawner := (onCategoryAssetLoaded key ans e.spawner).1 } ∧
      (onCategoryAssetLoaded key ans e.spawner).1.requests = e.spawner.requests := by
  cases hfind : e.spawner.categories.find key with
  | none =>
    simp only [ofSpawner, onCategoryAssetLoaded, hfind]
    exact ⟨rfl, trivial⟩
  | some rt =>
    cases hloaded : ans.loaded rt with
    | none =>
      simp only [ofSpawner, onCategoryAssetLoaded, hfind, hloaded]
      refine ⟨?_, trivial⟩
      rw [foldl_observe_same]
      intro a ha e
      obtain ⟨entry, -, rfl⟩ := List.mem_map.mp ha
      rfl
    | some asset =>
      simp only [ofSpawner, onCategoryAssetLoaded, hfind, hloaded]
      exact ⟨rfl, trivial⟩

/-- A category whose callback has been called expects none. -/
theorem Awaits.answered {key : String} {rt : CategoryRuntime} (h : Awaits e key rt)
    (ans : LoadAnswers) : Awaits e' key (rt.answered ans) := by
  cases hloaded : ans.loaded rt with
  | none =>
    rw [CategoryRuntime.answered, hloaded]
    refine ⟨fun hnot => ?_, fun _ => .inl rfl, fun hwaiting => absurd rfl hwaiting⟩
    exact ⟨(h.unrequested hnot).1, rfl⟩
  | some asset =>
    rw [CategoryRuntime.answered, hloaded]
    refine ⟨fun hnot => ?_, fun hrequested => ?_, fun hwaiting => absurd rfl hwaiting⟩
    · exact ⟨(h.unrequested hnot).1, rfl⟩
    · rcases h.requested hrequested with hfailed | ⟨handle, hhandle, -⟩
      · exact .inl hfailed
      · exact .inr ⟨handle, hhandle, .inl rfl⟩

/-- What a callback leaves of the manager. -/
theorem callBack_state (load : Load) (ans : LoadAnswers) (e : Streaming) :
    (callBack load ans e).1 = { e with
      loads := e.loads.filter (·.handle ≠ load.handle)
      spawner := (onCategoryAssetLoaded load.key ans e.spawner).1 } :=
  (ofSpawner_loaded load.key ans { e with loads := e.loads.filter (·.handle ≠ load.handle) }).1

/-- **A callback** settles its category, and no other. -/
theorem callBack_tracked (hT : Tracked e) {load : Load} (hload : load ∈ e.loads)
    (ans : LoadAnswers) : Tracked (callBack load ans e).1 := by
  rw [callBack_state]
  refine ⟨?_, fun other hother => ?_, fun key rt' hfind => ?_⟩
  · exact hT.distinct.sublist (List.filter_sublist.map Load.handle)
  · have hrequests := (ofSpawner_loaded load.key ans e).2
    rw [hrequests]
    exact hT.fresh other (List.mem_of_mem_filter hother)
  · rw [find_loaded] at hfind
    split at hfind
    · obtain ⟨rt, hrt, rfl⟩ := Option.map_eq_some_iff.mp hfind
      exact (hT.awaits key rt hrt).answered ans
    · rename_i hkey
      refine (hT.awaits key rt' hfind).mono fun handle _ hexpected => ?_
      obtain ⟨other, hother, hsame, hrest⟩ := hexpected
      refine ⟨other, List.mem_filter.mpr ⟨hother, ?_⟩, hsame, hrest⟩
      -- a load of the handle that was called carries the key that was called
      simp only [decide_eq_true_eq]
      intro heq
      have hothers := List.inj_on_of_nodup_map hT.distinct hother hload heq
      exact hkey (hothers ▸ hrest.2.symm)

theorem deliver_tracked (handle : ℕ) (ans : LoadAnswers) (hT : Tracked e) :
    Tracked (deliver handle ans e).1 := by
  cases hload : e.loads.find? fun load => load.handle = handle && load.completed with
  | none =>
    simp only [deliver, hload]
    exact hT
  | some load =>
    simp only [deliver, hload]
    exact callBack_tracked hT (List.mem_of_find?_eq_some hload) ans

/-! ### Spawning -/

/-- **What the spawning of an entry does**: it shows one action, about this entry, and changes
nothing but the counts and the marks of the container and of the component. -/
structure Spawns (entry : AssetEntry) (s : Spawner) (o : List SpawnAction) (t : Spawner) :
    Prop where
  shown : ∃ a, o = [a] ∧ a.takenEntry = some entry
  queue : t.readyQueue = s.readyQueue ∧ t.readyQueueHead = s.readyQueueHead
  requests : t.requests = s.requests
  categories : t.categories = s.categories ∨
    t.categories = s.categories.modify entry.category fun rt => { rt with hism := true }

theorem skipEntry_spawns (entry : AssetEntry) {why : SkipReason} (h : why.whileSpawning = true) :
    Meets (Spawns entry) (skipEntry entry why) := by
  intro s
  refine ⟨⟨_, rfl, ?_⟩, ⟨rfl, rfl⟩, rfl, .inl rfl⟩
  rw [SpawnAction.takenEntry, if_pos h]

theorem countSpawned_spawns (entry : AssetEntry) (z : ℚ) :
    Meets (Spawns entry) (countSpawned entry z) :=
  fun _ => ⟨⟨_, rfl, rfl⟩, ⟨rfl, rfl⟩, rfl, .inl rfl⟩

theorem getOrCreateContainerActor_same {ans : SpawnAnswers} {s s' : Spawner}
    (h : getOrCreateContainerActor ans s = some s') :
    (s'.readyQueue = s.readyQueue ∧ s'.readyQueueHead = s.readyQueueHead) ∧
      s'.requests = s.requests ∧ s'.categories = s.categories := by
  unfold getOrCreateContainerActor at h
  split at h
  · cases h
    exact ⟨⟨rfl, rfl⟩, rfl, rfl⟩
  · split at h
    · cases h
      exact ⟨⟨rfl, rfl⟩, rfl, rfl⟩
    · cases h

theorem spawnInstanced_spawns (entry : AssetEntry) (rt : CategoryRuntime) (ans : SpawnAnswers)
    (z : ℚ) : Meets (Spawns entry) (spawnInstanced entry rt ans z) := by
  intro s
  unfold spawnInstanced
  split
  · split
    · rename_i s' hism
      unfold getOrCreateHism at hism
      split at hism
      · cases hism
        exact countSpawned_spawns entry z _
      · obtain ⟨t, ht, rfl⟩ := Option.map_eq_some_iff.mp hism
        obtain ⟨hqueue, hrequests, hcategories⟩ := getOrCreateContainerActor_same ht
        refine ⟨⟨_, rfl, rfl⟩, hqueue, hrequests, .inr ?_⟩
        rw [← hcategories]
        rfl
    · exact skipEntry_spawns entry rfl s
  · exact skipEntry_spawns entry rfl s

theorem spawnAsActor_spawns (entry : AssetEntry) (rt : CategoryRuntime) (ans : SpawnAnswers)
    (z : ℚ) : Meets (Spawns entry) (spawnAsActor entry rt ans z) := by
  unfold spawnAsActor
  split
  · split
    · exact countSpawned_spawns entry z
    · exact skipEntry_spawns entry rfl
  · exact skipEntry_spawns entry rfl

/-- **Every way through `SpawnEntry`.** -/
theorem spawnEntry_spawns (entry : AssetEntry) (rt : CategoryRuntime) (ans : SpawnAnswers) :
    Meets (Spawns entry) (spawnEntry entry rt ans) := by
  have hplace : ∀ z, Meets (Spawns entry) (spawnAt entry rt ans z) := by
    intro z
    unfold spawnAt
    split
    · exact spawnInstanced_spawns entry rt ans z
    · exact spawnAsActor_spawns entry rt ans z
  unfold spawnEntry
  split
  · split
    · exact hplace _
    · exact skipEntry_spawns entry rfl
  · exact hplace 0

theorem takeEntry_tracked (entry : AssetEntry) (ans : SpawnAnswers) (hT : Tracked e) :
    Tracked (ofSpawner (takeEntry entry ans) e).1 := by
  cases hfind : e.spawner.categories.find entry.category with
  | none =>
    simp only [ofSpawner, takeEntry, hfind]
    exact hT.congr rfl rfl rfl rfl
  | some rt =>
    simp only [ofSpawner, takeEntry, hfind]
    obtain ⟨⟨a, hshown, ha⟩, -, hrequests, hcategories⟩ := spawnEntry_spawns entry rt ans
      { e.spawner with readyQueueHead := e.spawner.readyQueueHead + 1 }
    rw [hshown, List.foldl_cons, List.foldl_nil, observe_taken ha]
    rcases hcategories with hsame | hmarked
    · exact hT.congr rfl rfl hsame hrequests
    · exact hT.modify entry.category rfl rfl hmarked hrequests fun _ _ _ _ h =>
        ⟨h.unrequested, h.requested, h.waiting⟩

/-! ### Whole events -/

theorem tracked_composable :
    Composable (fun e (_ : List StreamAction) e' => Tracked e → Tracked e') := by
  constructor
  · exact fun _ h => h
  · exact fun _ _ _ _ _ h h' hT => h' (h hT)

/-- The operation keeps the invariant. -/
abbrev KeepsTrack (f : StreamOp) : Prop := Meets (fun e _ e' => Tracked e → Tracked e') f

theorem publishPending_tracked : KeepsTrack (ofSpawner publishPending) :=
  fun _ hT => hT.congr rfl rfl rfl rfl

theorem streamEnqueue_tracked (entries : List AssetEntry) : KeepsTrack (streamEnqueue entries) := by
  refine streamEnqueue_meets tracked_composable (fun entry e hT => ?_) publishPending_tracked
    entries
  rw [ofSpawner_receiveEntry]
  exact enqueueEntry_tracked entry hT

/-- A finalized generation has no categories. -/
theorem finalizeGeneration_tracked (hT : Tracked e) :
    Tracked (ofSpawner finalizeGeneration e).1 :=
  ⟨hT.distinct, hT.fresh, fun _ _ h => nomatch h⟩

theorem finalizeIfDrained_tracked : KeepsTrack (ofSpawner finalizeIfDrained) := by
  intro e hT
  simp only [ofSpawner, finalizeIfDrained]
  split
  · exact finalizeGeneration_tracked hT
  · exact hT

theorem compact_tracked : KeepsTrack (ofSpawner compact) := by
  intro e hT
  simp only [ofSpawner, compact]
  split <;> exact hT.congr rfl rfl rfl rfl

theorem streamTick_tracked (world : Bool) (turns : List StreamTurn) :
    KeepsTrack (streamTick world turns) := by
  have hdrain : ∀ turns, KeepsTrack (streamDrain turns) :=
    streamDrain_meets tracked_composable (fun _ entry ans _ => takeEntry_tracked entry ans)
      fun handle ans _ => deliver_tracked handle ans
  exact streamTick_meets tracked_composable hdrain compact_tracked publishPending_tracked
    finalizeIfDrained_tracked world turns

/-- What the end of a generation shows. -/
def SpawnAction.Ending : SpawnAction → Prop
  | .skipped _ why => why = .discarded
  | .cancelled _ => True
  | .finalized _ _ => True
  | _ => False

theorem endGeneration_ending (discard : Bool) (completed : ℕ → Bool) :
    Meets (ShowsAll SpawnAction.Ending) (endGeneration discard completed) := by
  intro s a ha
  unfold endGeneration at ha
  split at ha
  · split at ha
    · simp only [seq, discardPending, finalizeGeneration, List.mem_append, List.mem_map,
        List.mem_singleton] at ha
      rcases ha with (⟨e, _, rfl⟩ | ⟨n, _, rfl⟩) | rfl
      · rfl
      · trivial
      · trivial
    · split at ha
      · rw [List.mem_singleton.mp ha]
        trivial
      · cases ha
  · cases ha

/-- **What the end of a generation does**: it empties the spawner, or at most sets the flag. -/
theorem endGeneration_cases (discard : Bool) (completed : ℕ → Bool) (s : Spawner) :
    (endGeneration discard completed s).1.requests = s.requests ∧
      (((endGeneration discard completed s).1.categories = .empty ∧
        (endGeneration discard completed s).1.readyQueue = []) ∨
      ((endGeneration discard completed s).1.categories = s.categories ∧
        (endGeneration discard completed s).1.readyQueue = s.readyQueue ∧
        (endGeneration discard completed s).1.readyQueueHead = s.readyQueueHead ∧
        (endGeneration discard completed s).2 = [])) := by
  unfold endGeneration
  split
  · split
    · exact ⟨rfl, .inl ⟨rfl, rfl⟩⟩
    · split
      · exact ⟨rfl, .inl ⟨rfl, rfl⟩⟩
      · exact ⟨rfl, .inr ⟨rfl, rfl, rfl, rfl⟩⟩
  · exact ⟨rfl, .inr ⟨rfl, rfl, rfl, rfl⟩⟩

/-- The manager drops the loads that are cancelled, and no generation is opened. -/
theorem foldl_observe_ending {o : List SpawnAction} (ho : ∀ a ∈ o, a.Ending) (e : Streaming) :
    (o.foldl observe e).loads.Sublist e.loads ∧
      (o.foldl observe e).generation = e.generation := by
  induction o generalizing e with
  | nil => exact ⟨List.Sublist.refl _, rfl⟩
  | cons a o ih =>
    obtain ⟨hloads, hgeneration⟩ := ih (fun a ha => ho a (.tail _ ha)) (observe e a)
    have hending := ho a List.mem_cons_self
    rw [List.foldl_cons]
    cases a with
    | cancelled handle => exact ⟨hloads.trans List.filter_sublist, hgeneration⟩
    | skipped | finalized => exact ⟨hloads, hgeneration⟩
    | opened | received | requested | spawned => exact absurd hending id

theorem endGeneration_tracked (discard : Bool) (completed : ℕ → Bool) :
    KeepsTrack (ofSpawner (endGeneration discard completed)) := by
  intro e hT
  obtain ⟨hloads, -⟩ := foldl_observe_ending
    (endGeneration_ending discard completed e.spawner) e
  obtain ⟨hrequests, ⟨hempty, -⟩ | ⟨hcategories, -, -, hquiet⟩⟩ :=
    endGeneration_cases discard completed e.spawner
  · refine ⟨hT.distinct.sublist (hloads.map _), fun load hload => ?_, fun key rt hfind => ?_⟩
    · exact hrequests.symm ▸ hT.fresh load (hloads.subset hload)
    · have hfind' : (endGeneration discard completed e.spawner).1.categories.find key = some rt :=
        hfind
      rw [hempty] at hfind'
      cases hfind'
  · refine hT.congr ?_ ?_ hcategories hrequests
    · simp only [ofSpawner, hquiet, List.foldl_nil]
    · simp only [ofSpawner, hquiet, List.foldl_nil]

/-- The categories of a generation that has just been opened come from its manifest. -/
theorem find_opened {generationId : String} {manifest : Option (TMap ManifestAssetEntry)}
    {s : Spawner} {key : String} {rt : CategoryRuntime}
    (h : (openGeneration generationId manifest s).1.categories.find key = some rt) :
    ∃ entry, rt = .ofManifest entry := by
  cases manifest with
  | none => cases h
  | some m =>
    have hfind : (m.mapValues CategoryRuntime.ofManifest).find key = some rt := h
    rw [FoldedMap.find_mapValues] at hfind
    obtain ⟨entry, -, heq⟩ := Option.map_eq_some_iff.mp hfind
    exact ⟨entry, heq.symm⟩

theorem openGeneration_tracked (generationId : String)
    (manifest : Option (TMap ManifestAssetEntry)) :
    KeepsTrack (ofSpawner (openGeneration generationId manifest)) := by
  intro e hT
  refine ⟨hT.distinct, hT.fresh, fun key rt hfind => ?_⟩
  obtain ⟨entry, rfl⟩ := find_opened hfind
  refine ⟨fun _ => ⟨rfl, rfl⟩, fun hrequested => ?_, fun hwaiting => absurd rfl hwaiting⟩
  cases hrequested

theorem streamBegin_tracked (generationId : String)
    (manifest : Option (TMap ManifestAssetEntry)) :
    KeepsTrack (streamBegin generationId manifest) := by
  intro e
  simp only [streamBegin, beginGeneration, ofSpawner_seq]
  exact meets_seq tracked_composable (endGeneration_tracked true (hasLoadCompleted e))
    (openGeneration_tracked generationId manifest) e

/-- A completed load keeps its handle, its key and its generation. -/
theorem completeLoad_tracked (handle : ℕ) : KeepsTrack (completeLoad handle) := by
  intro e hT
  have hhandles : (completeLoad handle e).1.loads.map Load.handle = e.loads.map Load.handle := by
    rw [completeLoad, List.map_map]
    refine List.map_congr_left fun load _ => ?_
    simp only [Function.comp_apply]
    split <;> rfl
  refine ⟨hhandles ▸ hT.distinct, fun load hload => ?_, fun key rt hfind => ?_⟩
  · have hmem : load.handle ∈ e.loads.map Load.handle :=
      hhandles ▸ List.mem_map_of_mem hload
    obtain ⟨before, hbefore, heq⟩ := List.mem_map.mp hmem
    exact heq ▸ hT.fresh before hbefore
  · refine (hT.awaits key rt hfind).mono fun handle' _ hexpected => ?_
    obtain ⟨load, hload, hsame, hrest⟩ := hexpected
    refine ⟨_, List.mem_map_of_mem hload, ?_⟩
    split
    · exact ⟨hsame, hrest⟩
    · exact ⟨hsame, hrest⟩

/-- An asset whose handle is held is not collected. -/
theorem collectAsset_tracked (key : String) : KeepsTrack (collectAsset key) := by
  intro e hT
  refine hT.modify key rfl rfl rfl rfl fun key' rt _ _ h => ?_
  unfold CategoryRuntime.collected
  split
  · exact h
  · rename_i hnone
    refine ⟨h.unrequested, fun hrequested => ?_, fun hwaiting => ⟨(h.waiting hwaiting).1, rfl⟩⟩
    rcases h.requested hrequested with hfailed | ⟨handle, hhandle, -⟩
    · exact .inl hfailed
    · rw [hnone] at hhandle
      cases hhandle

/-- **Every event keeps the invariant.** -/
theorem event_tracked (event : StreamEvent) : KeepsTrack event.op := by
  cases event with
  | begin generationId manifest => exact streamBegin_tracked generationId manifest
  | enqueue entries => exact streamEnqueue_tracked entries
  | complete handle => exact completeLoad_tracked handle
  | deliver handle ans => exact fun _ hT => deliver_tracked handle ans hT
  | collect key => exact collectAsset_tracked key
  | tick world turns => exact streamTick_tracked world turns
  | finish discard => exact fun e => endGeneration_tracked discard (hasLoadCompleted e) e

end Tracking

end AetherForge.Plugin
