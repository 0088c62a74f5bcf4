import Mathlib.Algebra.Order.Group.Multiset
import AetherForge.Plugin.Spawner

/-!
# The roster of a generation

Every entry that reaches an open generation is spawned in it, skipped or still queued, and every
generation that was opened is finalized once, with nothing left in its queues.  The roster is an
abstract machine that reads what the spawner shows and keeps the entries that are outstanding: it
accepts a spawn only of one of them, under the id of the generation, and a final broadcast only
when none is left and the counts are exact.

* `Consistent` — the invariant: what is queued belongs to a known category;
* `Handles` — which entries in flight an operation handles;
* `call_enrolls` — every call of the spawner drives the roster.
-/

namespace AetherForge.Plugin

open Operation Transition

/-! ### The roster -/

structure Roster where
  generationId : String
  /-- The entries that were received and neither spawned nor skipped. -/
  outstanding : Multiset AssetEntry
  spawned : ℕ
  skipped : ℕ

/-- What the roster accepts: a generation is opened when none is open; entries are received while
one is, and each of them is spawned or skipped once; the final broadcast states exactly the counts,
with no entry outstanding or left. -/
def enroll : Option Roster → SpawnAction → Option (Option Roster)
  | none, .opened generationId => some (some ⟨generationId, 0, 0, 0⟩)
  | some r, .received entry => some (some { r with outstanding := entry ::ₘ r.outstanding })
  | some r, .spawned generationId entry _ =>
    if generationId = r.generationId ∧ entry ∈ r.outstanding then
      some (some { r with outstanding := r.outstanding.erase entry, spawned := r.spawned + 1 })
    else none
  | some r, .skipped entry _ =>
    if entry ∈ r.outstanding then
      some (some { r with outstanding := r.outstanding.erase entry, skipped := r.skipped + 1 })
    else none
  | some r, .finalized stats left =>
    if stats.spawnedCount = r.spawned ∧ stats.skippedCount = r.skipped ∧ r.outstanding = 0 ∧
        left = [] then some none
    else none
  | b, .requested _ _ => some b
  | b, .cancelled _ => some b
  | _, _ => none

namespace Spawner

/-- The roster of an open generation while `flight` is in flight: received, and neither queued nor
counted. -/
def inFlightRoster (s : Spawner) (flight : Multiset AssetEntry) : Roster :=
  ⟨s.activeGenerationId, s.pendingEntries + flight, s.stats.spawnedCount, s.stats.skippedCount⟩

/-- The roster of the state. -/
def roster (s : Spawner) : Option Roster :=
  if s.activeTransaction then some (s.inFlightRoster 0) else none

end Spawner

/-- The invariant: the head is inside the queue, queued entries are of known categories, a
category's waiting entries are its own, and without an open generation there is nothing. -/
structure Consistent (s : Spawner) : Prop where
  head : s.readyQueueHead ≤ s.readyQueue.length
  ready : ∀ e ∈ s.readyQueue.drop s.readyQueueHead, (s.categories.find e.category).isSome = true
  waiting : ∀ p ∈ s.categories.entries, ∀ e ∈ p.2.waitingEntries, foldKey e.category = foldKey p.1
  closed : s.activeTransaction = false → s.categories = .empty ∧ s.readyQueue = []

/-- The invariant of an open generation. -/
def Open (s : Spawner) : Prop := Consistent s ∧ s.activeTransaction = true

/-- The generation stays what it is. -/
def SameGeneration (s t : Spawner) : Prop :=
  t.activeGenerationId = s.activeGenerationId ∧ t.finalizeWhenDrained = s.finalizeWhenDrained

/-- In an open generation, what is shown handles `es` of the entries in flight. -/
def Handles (es : Multiset AssetEntry) (s : Spawner) (o : List SpawnAction) (t : Spawner) : Prop :=
  Open s → Open t ∧ SameGeneration s t ∧ ∀ flight,
    follow enroll (some (s.inFlightRoster (es + flight))) o = some (some (t.inFlightRoster flight))

/-- The operation keeps the invariant, and what it shows drives the roster. -/
abbrev Enrolls (f : SpawnOp) : Prop := Meets (Follows enroll Consistent Spawner.roster) f

theorem enrolls_composable : Composable (Follows enroll Consistent Spawner.roster) :=
  follows_composable _ _ _

theorem consistent_start : Consistent .start :=
  ⟨Nat.le_refl _, by simp [Spawner.start], by simp [Spawner.start, FoldedMap.empty],
    fun _ => ⟨rfl, rfl⟩⟩

section Entries

variable {s s' : Spawner}

/-! ### Reading the roster -/

theorem enroll_spawned {r : Roster} {entry : AssetEntry} {rest : Multiset AssetEntry}
    (h : r.outstanding = entry ::ₘ rest) (z : ℚ) :
    enroll (some r) (.spawned r.generationId entry z) =
      some (some { r with outstanding := rest, spawned := r.spawned + 1 }) := by
  have hmem : entry ∈ r.outstanding := by
    rw [h]
    exact Multiset.mem_cons_self entry rest
  rw [enroll, if_pos ⟨rfl, hmem⟩, h, Multiset.erase_cons_head]

theorem enroll_skipped {r : Roster} {entry : AssetEntry} {rest : Multiset AssetEntry}
    (h : r.outstanding = entry ::ₘ rest) (why : SkipReason) :
    enroll (some r) (.skipped entry why) =
      some (some { r with outstanding := rest, skipped := r.skipped + 1 }) := by
  have hmem : entry ∈ r.outstanding := by
    rw [h]
    exact Multiset.mem_cons_self entry rest
  rw [enroll, if_pos hmem, h, Multiset.erase_cons_head]

/-- Skipping entries one by one. -/
theorem follow_skipped (why : SkipReason) (es : List AssetEntry) {r : Roster}
    {rest : Multiset AssetEntry} (h : r.outstanding = es + rest) :
    follow enroll (some r) (es.map (.skipped · why)) =
      some (some { r with outstanding := rest, skipped := r.skipped + es.length }) := by
  induction es generalizing r with
  | nil =>
    rw [Multiset.coe_nil, zero_add] at h
    rw [List.map_nil, follow_nil, List.length_nil, Nat.add_zero, ← h]
  | cons e es ih =>
    rw [← Multiset.cons_coe, Multiset.cons_add] at h
    rw [List.map_cons, follow_cons_some (enroll_skipped h why), ih rfl, List.length_cons]
    simp only [Nat.add_assoc, Nat.add_comm 1]

theorem follow_cancelled (b : Option Roster) (handles : List ℕ) :
    follow enroll b (handles.map .cancelled) = some b := by
  induction handles with
  | nil => rfl
  | cons h hs ih =>
    rw [List.map_cons, follow_cons_some]
    · exact ih
    · cases b <;> rfl

/-- The number of queued entries is the number of pending ones. -/
theorem pendingEntries_length (s : Spawner) : s.pendingEntries.length = s.numPendingEntries := by
  rw [Spawner.pendingEntries, List.length_append, List.length_drop, Spawner.waitingEntries,
    List.length_flatMap]
  rfl

theorem pendingEntries_eq_nil (h : s.numPendingEntries = 0) : s.pendingEntries = [] := by
  rw [← List.length_eq_zero_iff, pendingEntries_length, h]

/-- The invariant is about the queues. -/
theorem Consistent.congr (hI : Consistent s) (hactive : s'.activeTransaction = s.activeTransaction)
    (hcategories : s'.categories = s.categories) (hqueue : s'.readyQueue = s.readyQueue)
    (hhead : s'.readyQueueHead = s.readyQueueHead) : Consistent s' := by
  obtain ⟨h₁, h₂, h₃, h₄⟩ := hI
  rw [← hhead, ← hqueue] at h₁ h₂
  rw [← hcategories] at h₂ h₃ h₄
  rw [← hactive, ← hqueue] at h₄
  exact ⟨h₁, h₂, h₃, h₄⟩

/-! ### Changes of one category -/

/-- What keeps the invariant when one category changes: its waiting entries stay its own, and
what enters the queue belongs to a known category. -/
theorem Consistent.modify (hI : Consistent s) (key : String)
    (f : CategoryRuntime → CategoryRuntime)
    (hcategories : s'.categories = s.categories.modify key f)
    (hwaiting : ∀ rt, ∀ e ∈ (f rt).waitingEntries,
      e ∈ rt.waitingEntries ∨ foldKey e.category = foldKey key)
    (hhead : s'.readyQueueHead ≤ s'.readyQueue.length)
    (hready : ∀ e ∈ s'.readyQueue.drop s'.readyQueueHead,
      (s.categories.find e.category).isSome = true)
    (hactive : s'.activeTransaction = true) : Consistent s' := by
  refine ⟨hhead, ?_, ?_, ?_⟩
  · intro e he
    rw [hcategories, FoldedMap.isSome_find_modify]
    exact hready e he
  · rintro ⟨k, rt⟩ hp e he
    rw [hcategories] at hp
    rcases s.categories.mem_entries_modify f hp with ⟨v, hv, hk, hval⟩ | hp
    · simp only at hk hval he
      rw [hval] at he
      rcases hwaiting v e he with he | he
      · exact hI.waiting _ hv e he
      · exact he.trans hk.symm
    · exact hI.waiting _ hp e he
  · intro ha
    rw [hactive] at ha
    cases ha

/-- A change of one category that leaves its waiting entries alone. -/
theorem Consistent.touch (hI : Consistent s) (key : String)
    {f : CategoryRuntime → CategoryRuntime} (hf : ∀ rt, (f rt).waitingEntries = rt.waitingEntries) :
    Consistent { s with categories := s.categories.modify key f } := by
  rcases Bool.eq_false_or_eq_true s.activeTransaction with ha | ha
  · exact hI.modify key f rfl (fun rt e he => .inl (hf rt ▸ he)) hI.head hI.ready ha
  · obtain ⟨hempty, hqueue⟩ := hI.closed ha
    refine ⟨hI.head, ?_, ?_, fun _ => ⟨?_, hqueue⟩⟩
    · simp [hqueue]
    · simp [hempty, FoldedMap.modify, FoldedMap.empty]
    · rw [hempty]
      rfl

/-- **The entries pending after a change** of one category, when the queue stays. -/
theorem pendingEntries_modify {key : String} {rt : CategoryRuntime}
    (h : s.categories.find key = some rt) (f : CategoryRuntime → CategoryRuntime) :
    (Spawner.pendingEntries { s with categories := s.categories.modify key f } :
      Multiset AssetEntry) + rt.waitingEntries = s.pendingEntries + (f rt).waitingEntries := by
  have hperm := Multiset.coe_eq_coe.mpr (s.categories.flatMap_modify f h (·.waitingEntries))
  rw [← Multiset.coe_add, ← Multiset.coe_add] at hperm
  simp only [Spawner.pendingEntries, Spawner.waitingEntries, ← Multiset.coe_add]
  rw [add_assoc, hperm, add_assoc]

/-- What a category no longer holds. -/
theorem pendingEntries_emptied {key : String} {rt : CategoryRuntime}
    (h : s.categories.find key = some rt) {f : CategoryRuntime → CategoryRuntime}
    (hf : (f rt).waitingEntries = []) :
    (s.pendingEntries : Multiset AssetEntry) = rt.waitingEntries +
      Spawner.pendingEntries { s with categories := s.categories.modify key f } := by
  have hmodify := pendingEntries_modify h f
  rw [hf, Multiset.coe_nil, add_zero] at hmodify
  rw [← hmodify, add_comm]

theorem pendingEntries_touch (s : Spawner) (key : String)
    {f : CategoryRuntime → CategoryRuntime} (hf : ∀ rt, (f rt).waitingEntries = rt.waitingEntries) :
    Spawner.pendingEntries { s with categories := s.categories.modify key f } =
      s.pendingEntries := by
  simp only [Spawner.pendingEntries, Spawner.waitingEntries]
  rw [FoldedMap.flatMap_modify_same _ _ hf]

/-! ### Handling entries -/

theorem SameGeneration.trans {t u : Spawner} (h : SameGeneration s t) (h' : SameGeneration t u) :
    SameGeneration s u := ⟨h'.1.trans h.1, h'.2.trans h.2⟩

theorem Handles.trans {t u : Spawner} {o o' : List SpawnAction} {es es' : Multiset AssetEntry}
    (h : Handles es s o t) (h' : Handles es' t o' u) : Handles (es + es') s (o ++ o') u := by
  intro hs
  obtain ⟨ht, hsame, ho⟩ := h hs
  obtain ⟨hu, hsame', ho'⟩ := h' ht
  refine ⟨hu, hsame.trans hsame', fun flight => ?_⟩
  rw [add_assoc, follow_append (ho (es' + flight)), ho' flight]

/-- A quiet step before does not count. -/
theorem Handles.after {t u : Spawner} {o : List SpawnAction} {es : Multiset AssetEntry}
    (h : Handles 0 s [] t) (h' : Handles es t o u) : Handles es s o u := by
  have htrans := h.trans h'
  rwa [zero_add, List.nil_append] at htrans

theorem handles_composable : Composable (Handles 0) := by
  constructor
  · intro s hs
    exact ⟨hs, ⟨rfl, rfl⟩, fun flight => by rw [zero_add, follow_nil]⟩
  · exact fun _ _ _ _ _ h h' => h.trans h'

/-- A change that shows nothing and queues what was in flight. -/
theorem handles_quiet {es : Multiset AssetEntry} (h : Open s → Open s')
    (hsame : SameGeneration s s')
    (hpending : (s'.pendingEntries : Multiset AssetEntry) = s.pendingEntries + es)
    (hspawned : s'.stats.spawnedCount = s.stats.spawnedCount)
    (hskipped : s'.stats.skippedCount = s.stats.skippedCount) : Handles es s [] s' := by
  intro hs
  refine ⟨h hs, hsame, fun flight => ?_⟩
  rw [follow_nil, Spawner.inFlightRoster, Spawner.inFlightRoster, hsame.1, hpending, hspawned,
    hskipped, add_assoc]

/-- A change outside the queues and the counts. -/
theorem handles_same (hsame : SameGeneration s s')
    (hactive : s'.activeTransaction = s.activeTransaction)
    (hcategories : s'.categories = s.categories) (hqueue : s'.readyQueue = s.readyQueue)
    (hhead : s'.readyQueueHead = s.readyQueueHead)
    (hspawned : s'.stats.spawnedCount = s.stats.spawnedCount)
    (hskipped : s'.stats.skippedCount = s.stats.skippedCount) : Handles 0 s [] s' := by
  refine handles_quiet ?_ hsame ?_ hspawned hskipped
  · exact fun hs => ⟨hs.1.congr hactive hcategories hqueue hhead, hactive.trans hs.2⟩
  · rw [Spawner.pendingEntries, Spawner.pendingEntries, Spawner.waitingEntries,
      Spawner.waitingEntries, hcategories, hqueue, hhead, add_zero]

theorem handles_touch (s : Spawner) (key : String) {f : CategoryRuntime → CategoryRuntime}
    (hf : ∀ rt, (f rt).waitingEntries = rt.waitingEntries) :
    Handles 0 s [] { s with categories := s.categories.modify key f } := by
  refine handles_quiet (fun hs => ⟨hs.1.touch key hf, hs.2⟩) ⟨rfl, rfl⟩ ?_ rfl rfl
  rw [pendingEntries_touch s key hf, add_zero]

/-- An entry in flight is at hand. -/
theorem outstanding_inFlight (s : Spawner) (entry : AssetEntry) (flight : Multiset AssetEntry) :
    (s.inFlightRoster ({entry} + flight)).outstanding =
      entry ::ₘ (s.inFlightRoster flight).outstanding := by
  rw [Spawner.inFlightRoster, Spawner.inFlightRoster, Multiset.singleton_add, Multiset.add_cons]

/-- A skip handles its entry. -/
theorem skipEntry_handles (entry : AssetEntry) (why : SkipReason) (s : Spawner) :
    Handles {entry} s (skipEntry entry why s).2 (skipEntry entry why s).1 := by
  rintro ⟨hI, ha⟩
  refine ⟨⟨hI.congr rfl rfl rfl rfl, ha⟩, ⟨rfl, rfl⟩, fun flight => ?_⟩
  rw [skipEntry, follow_cons_some (enroll_skipped (outstanding_inFlight s entry flight) why)]
  rfl

/-- A spawn handles its entry. -/
theorem countSpawned_handles (entry : AssetEntry) (z : ℚ) (s : Spawner) :
    Handles {entry} s (countSpawned entry z s).2 (countSpawned entry z s).1 := by
  rintro ⟨hI, ha⟩
  refine ⟨⟨hI.congr rfl rfl rfl rfl, ha⟩, ⟨rfl, rfl⟩, fun flight => ?_⟩
  have hspawned := enroll_spawned (outstanding_inFlight s entry flight) z
  rw [countSpawned]
  exact follow_cons_some hspawned []

/-! ### Loads -/

/-- An entry waiting in a category is of a known category. -/
theorem Consistent.known (hI : Consistent s) {key : String} {rt : CategoryRuntime}
    (h : s.categories.find key = some rt) {e : AssetEntry} (he : e ∈ rt.waitingEntries) :
    (s.categories.find e.category).isSome = true := by
  obtain ⟨k, hk, hfold⟩ := FoldedMap.mem_of_find h
  rw [s.categories.find_congr ((hI.waiting _ hk e he).trans hfold), h]
  rfl

/-- **A completed load** promotes or skips what waited for it. -/
theorem loaded_handles (key : String) (ans : LoadAnswers) :
    Meets (Handles 0) (onCategoryAssetLoaded key ans) := by
  rintro s ⟨hI, ha⟩
  cases hfind : s.categories.find key with
  | none =>
    simp only [onCategoryAssetLoaded, hfind]
    exact handles_composable.refl s ⟨hI, ha⟩
  | some rt =>
    cases hloaded : ans.loaded rt with
    | none =>
      simp only [onCategoryAssetLoaded, hfind, hloaded]
      have hpending := pendingEntries_emptied hfind (f := .failed) rfl
      refine ⟨⟨hI.modify key .failed rfl ?_ hI.head hI.ready ha, ha⟩, ⟨rfl, rfl⟩, fun flight => ?_⟩
      · simp [CategoryRuntime.failed]
      · refine follow_skipped .loadFailed rt.waitingEntries ?_
        rw [Spawner.inFlightRoster, zero_add, hpending, add_assoc]
        rfl
    | some asset =>
      simp only [onCategoryAssetLoaded, hfind, hloaded]
      have hpending := pendingEntries_emptied hfind (f := .promoted asset) rfl
      have hhead := hI.head
      refine handles_quiet ?_ ⟨rfl, rfl⟩ ?_ rfl rfl ⟨hI, ha⟩
      · refine fun _ => ⟨hI.modify key (.promoted asset) rfl ?_ ?_ ?_ ha, ha⟩
        · simp [CategoryRuntime.promoted]
        · simp only [List.length_append]
          omega
        · intro e he
          rw [List.drop_append_of_le_length hhead, List.mem_append] at he
          rcases he with he | he
          · exact hI.ready e he
          · exact hI.known hfind he
      · -- the waiting entries go to the end of the queue
        rw [hpending, Spawner.pendingEntries, Spawner.pendingEntries,
          List.drop_append_of_le_length hhead, add_zero]
        simp only [← Multiset.coe_add]
        rw [add_comm (s.readyQueue.drop s.readyQueueHead : Multiset AssetEntry), add_assoc]
        rfl

theorem isSome_find_loaded (key key' : String) (ans : LoadAnswers) (s : Spawner) :
    ((onCategoryAssetLoaded key ans s).1.categories.find key').isSome =
      (s.categories.find key').isSome := by
  unfold onCategoryAssetLoaded
  split
  · rfl
  · split <;> exact FoldedMap.isSome_find_modify _ _ _

theorem requestAsyncLoad_handles (key : String) (ans : RequestAnswers) :
    Meets (Handles 0) (requestAsyncLoad key ans) := by
  intro s
  have hcount : Handles 0 s [] { s with requests := s.requests + 1 } :=
    handles_same ⟨rfl, rfl⟩ rfl rfl rfl rfl rfl rfl
  refine hcount.after (meets_seq handles_composable ?_ ?_ _)
  · cases ans.atOnce with
    | none => exact meets_skip handles_composable
    | some load => exact loaded_handles key load
  · intro t ht
    obtain ⟨hopen, hsame, hroster⟩ := handles_touch t key
      (f := fun rt => { rt with loadHandle := if ans.handle then some s.requests else none })
      (fun _ => rfl) ht
    refine ⟨hopen, hsame, fun flight => ?_⟩
    rw [follow_cons_some rfl]
    exact hroster flight

theorem isSome_find_requested (key key' : String) (ans : RequestAnswers) (s : Spawner) :
    ((requestAsyncLoad key ans s).1.categories.find key').isSome =
      (s.categories.find key').isSome := by
  simp only [requestAsyncLoad, seq]
  rw [FoldedMap.isSome_find_modify]
  cases ans.atOnce with
  | none => rfl
  | some load => exact isSome_find_loaded _ _ _ _

/-! ### Receiving entries -/

/-- An entry of a known category is queued, in one of the two places. -/
theorem queueEntry_handles (entry : AssetEntry) (assetValid : Bool) (s : Spawner)
    (hknown : (s.categories.find entry.category).isSome = true) :
    Handles {entry} s (queueEntry entry assetValid s).2 (queueEntry entry assetValid s).1 := by
  rintro ⟨hI, ha⟩
  obtain ⟨rt, hfind⟩ := Option.isSome_iff_exists.mp hknown
  have hhead := hI.head
  simp only [queueEntry, hfind]
  by_cases hready : (rt.loadedAsset.isSome && assetValid) = true
  · rw [if_pos hready]
    refine handles_quiet ?_ ⟨rfl, rfl⟩ ?_ rfl rfl ⟨hI, ha⟩
    · refine fun _ => ⟨⟨?_, ?_, hI.waiting, fun h => absurd (ha.symm.trans h) (by simp)⟩, ha⟩
      · simp only [List.length_append]
        omega
      · intro e he
        rw [List.drop_append_of_le_length hhead, List.mem_append, List.mem_singleton] at he
        rcases he with he | rfl
        · exact hI.ready e he
        · exact hknown
    · rw [Spawner.pendingEntries, Spawner.pendingEntries, List.drop_append_of_le_length hhead]
      simp only [← Multiset.coe_add, Multiset.coe_singleton]
      exact add_right_comm _ _ _
  · rw [if_neg hready]
    refine handles_quiet ?_ ⟨rfl, rfl⟩ ?_ rfl rfl ⟨hI, ha⟩
    · refine fun _ => ⟨hI.modify entry.category (.addWaiting entry) rfl ?_ hhead hI.ready ha, ha⟩
      intro rt e he
      rcases List.mem_append.mp he with he | he
      · exact .inl he
      · exact .inr (by rw [List.mem_singleton.mp he])
    · have hpending := pendingEntries_modify hfind (.addWaiting entry)
      simp only [CategoryRuntime.addWaiting, ← Multiset.coe_add, Multiset.coe_singleton] at hpending
      rw [add_comm (rt.waitingEntries : Multiset AssetEntry), ← add_assoc] at hpending
      exact add_right_cancel hpending

/-- **Every way through the loop body** handles the entry. -/
theorem enqueueEntry_handles (entry : AssetEntry) (ans : RequestAnswers) :
    Meets (Handles {entry}) (enqueueEntry entry ans) := by
  intro s
  cases hfind : s.categories.find entry.category with
  | none =>
    simp only [enqueueEntry, hfind]
    exact skipEntry_handles entry .unknownCategory s
  | some rt =>
    have hknown : (s.categories.find entry.category).isSome = true := by
      rw [hfind]
      rfl
    simp only [enqueueEntry, hfind]
    by_cases hfailed : rt.loadFailed = true
    · rw [if_pos hfailed]
      exact skipEntry_handles entry .loadFailed s
    · rw [if_neg hfailed]
      by_cases hrequested : rt.loadRequested = true
      · rw [if_pos hrequested]
        exact queueEntry_handles entry ans.assetValid s hknown
      · rw [if_neg hrequested]
        cases rt.assetPath with
        | none =>
          exact (handles_touch s entry.category (f := .pathless) fun _ => rfl).after
            (skipEntry_handles entry .noAssetPath _)
        | some path =>
          have hrequest := requestAsyncLoad_handles entry.category ans
            { s with categories := s.categories.modify entry.category .requested }
          have hqueue := hrequest.trans (queueEntry_handles entry ans.assetValid _ (by
            rw [isSome_find_requested, FoldedMap.isSome_find_modify]
            exact hknown))
          rw [zero_add] at hqueue
          exact (handles_touch s entry.category (f := .requested) fun _ => rfl).after hqueue

/-- A received entry is in flight until it has been processed. -/
theorem receiveEntry_handles (p : AssetEntry × RequestAnswers) :
    Meets (Handles 0) (receiveEntry p) := by
  rintro s hs
  obtain ⟨hopen, hsame, hroster⟩ := enqueueEntry_handles p.1 p.2 s hs
  refine ⟨hopen, hsame, fun flight => ?_⟩
  -- the receipt puts one more entry in flight, and the loop body handles it
  rw [receiveEntry, seq, List.singleton_append, follow_cons_some rfl, zero_add,
    ← outstanding_inFlight]
  exact hroster flight

/-! ### Spawning entries -/

theorem getOrCreateContainerActor_handles (ans : SpawnAnswers)
    (h : getOrCreateContainerActor ans s = some s') : Handles 0 s [] s' := by
  unfold getOrCreateContainerActor at h
  split at h
  · cases h
    exact handles_composable.refl s
  · split at h
    · cases h
      exact handles_same ⟨rfl, rfl⟩ rfl rfl rfl rfl rfl rfl
    · cases h

theorem getOrCreateHism_handles (key : String) (rt : CategoryRuntime) (ans : SpawnAnswers)
    (h : getOrCreateHism key rt ans s = some s') : Handles 0 s [] s' := by
  unfold getOrCreateHism at h
  split at h
  · cases h
    exact handles_composable.refl s
  · obtain ⟨t, ht, rfl⟩ := Option.map_eq_some_iff.mp h
    exact (getOrCreateContainerActor_handles ans ht).after (handles_touch t key fun _ => rfl)

theorem spawnInstanced_handles (entry : AssetEntry) (rt : CategoryRuntime) (ans : SpawnAnswers)
    (z : ℚ) : Meets (Handles {entry}) (spawnInstanced entry rt ans z) := by
  intro s
  unfold spawnInstanced
  split
  · split
    · exact (getOrCreateHism_handles _ _ _ ‹_›).after (countSpawned_handles entry z _)
    · exact skipEntry_handles entry .noComponent s
  · exact skipEntry_handles entry .notStaticMesh s

theorem spawnAsActor_handles (entry : AssetEntry) (rt : CategoryRuntime) (ans : SpawnAnswers)
    (z : ℚ) : Meets (Handles {entry}) (spawnAsActor entry rt ans z) := by
  unfold spawnAsActor
  split
  · split
    · exact countSpawned_handles entry z
    · exact skipEntry_handles entry .spawnFailed
  · exact skipEntry_handles entry .notSpawnable

theorem spawnAt_handles (entry : AssetEntry) (rt : CategoryRuntime) (ans : SpawnAnswers) (z : ℚ) :
    Meets (Handles {entry}) (spawnAt entry rt ans z) := by
  unfold spawnAt
  split
  · exact spawnInstanced_handles entry rt ans z
  · exact spawnAsActor_handles entry rt ans z

/-- **Every way through `SpawnEntry`** handles the entry. -/
theorem spawnEntry_handles (entry : AssetEntry) (rt : CategoryRuntime) (ans : SpawnAnswers) :
    Meets (Handles {entry}) (spawnEntry entry rt ans) := by
  unfold spawnEntry
  split
  · split
    · exact spawnAt_handles entry rt ans _
    · exact skipEntry_handles entry .noGround
  · exact spawnAt_handles entry rt ans 0

/-- Taking an entry from the queue puts it in flight, and spawning it handles it. -/
theorem takeEntry_handles {entry : AssetEntry} (ans : SpawnAnswers)
    (hentry : s.readyQueue[s.readyQueueHead]? = some entry) :
    Handles 0 s (takeEntry entry ans s).2 (takeEntry entry ans s).1 := by
  rintro ⟨hI, ha⟩
  obtain ⟨hlt, hget⟩ := List.getElem?_eq_some_iff.mp hentry
  have hdrop : s.readyQueue.drop s.readyQueueHead =
      entry :: s.readyQueue.drop (s.readyQueueHead + 1) := by
    rw [List.drop_eq_getElem_cons hlt, hget]
  obtain ⟨rt, hfind⟩ := Option.isSome_iff_exists.mp (hI.ready entry (by simp [hdrop]))
  -- past the head the entry is in no queue, and in no count
  have htaken : Open { s with readyQueueHead := s.readyQueueHead + 1 } :=
    ⟨⟨hlt, fun e he => hI.ready e (by rw [hdrop]; exact .tail _ he), hI.waiting, hI.closed⟩, ha⟩
  have hpending : (s.pendingEntries : Multiset AssetEntry) =
      entry ::ₘ Spawner.pendingEntries { s with readyQueueHead := s.readyQueueHead + 1 } := by
    rw [Spawner.pendingEntries, hdrop, List.cons_append, ← Multiset.cons_coe]
    rfl
  obtain ⟨hopen, hsame, hroster⟩ := spawnEntry_handles entry rt ans _ htaken
  simp only [takeEntry, hfind]
  refine ⟨hopen, hsame, fun flight => ?_⟩
  rw [← hroster flight, zero_add, Spawner.inFlightRoster, Spawner.inFlightRoster, hpending,
    Multiset.cons_add, Multiset.singleton_add, Multiset.add_cons]

theorem completions_handle (completions : List (String × LoadAnswers)) :
    Meets (Handles 0) (forEach (fun c => onCategoryAssetLoaded c.1 c.2) completions) := by
  refine meets_forEach handles_composable ?_ completions
  intro c
  exact loaded_handles c.1 c.2

/-- **The loop of a tick**, wherever the budget cuts it. -/
theorem drain_handles (turns : List Turn) : Meets (Handles 0) (drain turns) := by
  induction turns with
  | nil => exact meets_skip handles_composable
  | cons turn turns ih =>
    intro s
    cases hentry : s.readyQueue[s.readyQueueHead]? with
    | none =>
      simp only [drain, hentry]
      exact handles_composable.refl s
    | some entry =>
      simp only [drain, hentry]
      have hrest := meets_seq handles_composable (completions_handle turn.completions) ih
      exact (takeEntry_handles turn.answers hentry).trans (hrest _)

theorem compact_handles : Meets (Handles 0) compact := by
  intro s
  unfold compact
  split
  · rename_i hle
    refine handles_quiet ?_ ⟨rfl, rfl⟩ ?_ rfl rfl
    · rintro ⟨⟨hhead, hready, hwaiting, hclosed⟩, ha⟩
      exact ⟨⟨Nat.le_refl 0, by simp, hwaiting, fun h => ⟨(hclosed h).1, rfl⟩⟩, ha⟩
    · rw [Spawner.pendingEntries, Spawner.pendingEntries, List.drop_eq_nil_of_le hle, add_zero]
      rfl
  · exact handles_composable.refl s

theorem publishPending_handles : Meets (Handles 0) publishPending :=
  fun _ => handles_same ⟨rfl, rfl⟩ rfl rfl rfl rfl rfl rfl

/-! ### Whole calls -/

/-- What handles all it receives, in an open generation, drives the roster. -/
theorem Handles.follows {o : List SpawnAction} (h : Handles 0 s o s')
    (ha : s.activeTransaction = true) : Follows enroll Consistent Spawner.roster s o s' := by
  intro hI
  obtain ⟨⟨hI', ha'⟩, -, hroster⟩ := h ⟨hI, ha⟩
  refine ⟨hI', ?_⟩
  rw [Spawner.roster, if_pos ha, Spawner.roster, if_pos ha']
  exact hroster 0

/-- Without an open generation, a completed load finds no category. -/
theorem loaded_closed (key : String) (ans : LoadAnswers) (hI : Consistent s)
    (ha : s.activeTransaction = false) : onCategoryAssetLoaded key ans s = (s, []) := by
  have hfind : s.categories.find key = none := by rw [(hI.closed ha).1, FoldedMap.find_empty]
  rw [onCategoryAssetLoaded, hfind]

theorem loaded_enrolls (key : String) (ans : LoadAnswers) :
    Enrolls (onCategoryAssetLoaded key ans) := by
  intro s hI
  rcases Bool.eq_false_or_eq_true s.activeTransaction with ha | ha
  · exact (loaded_handles key ans s).follows ha hI
  · rw [loaded_closed key ans hI ha]
    exact enrolls_composable.refl s hI

theorem receiveEntries_handles (entries : List (AssetEntry × RequestAnswers)) :
    Meets (Handles 0) (seq (forEach receiveEntry entries) publishPending) :=
  meets_seq handles_composable (meets_forEach handles_composable receiveEntry_handles entries)
    publishPending_handles

theorem enqueueEntries_enrolls (entries : List (AssetEntry × RequestAnswers)) :
    Enrolls (enqueueEntries entries) := by
  intro s
  unfold enqueueEntries
  split
  · exact (receiveEntries_handles entries s).follows ‹_›
  · exact enrolls_composable.refl s

/-- **A finalized generation**: with nothing pending, the broadcast states the roster. -/
theorem finalizeGeneration_follows (ha : s.activeTransaction = true)
    (hpending : s.numPendingEntries = 0) :
    Follows enroll Consistent Spawner.roster s (finalizeGeneration s).2
      (finalizeGeneration s).1 := by
  intro hI
  have hleft := pendingEntries_eq_nil hpending
  refine ⟨⟨Nat.le_refl 0, by simp [finalizeGeneration],
    by simp [finalizeGeneration, FoldedMap.empty], fun _ => ⟨rfl, rfl⟩⟩, ?_⟩
  have hnone : (s.inFlightRoster 0).outstanding = 0 := by
    rw [Spawner.inFlightRoster, hleft, Multiset.coe_nil, zero_add]
  have hfinal : enroll (some (s.inFlightRoster 0))
      (.finalized { s.stats with pendingCount := 0 } []) = some none :=
    if_pos ⟨rfl, rfl, hnone, rfl⟩
  rw [Spawner.roster, if_pos ha, finalizeGeneration, hleft, follow_cons_some hfinal]
  rfl

theorem finalizeIfDrained_follows (ha : s.activeTransaction = true) :
    Follows enroll Consistent Spawner.roster s (finalizeIfDrained s).2
      (finalizeIfDrained s).1 := by
  unfold finalizeIfDrained
  split
  · rename_i h
    exact finalizeGeneration_follows ha h.2
  · exact enrolls_composable.refl s

/-- The part of a tick that spawns. -/
theorem drained_handles (turns : List Turn) :
    Meets (Handles 0) (seq (drain turns) (seq compact publishPending)) :=
  meets_seq handles_composable (drain_handles turns)
    (meets_seq handles_composable compact_handles publishPending_handles)

theorem spawnTick_enrolls (world : Bool) (turns : List Turn) : Enrolls (spawnTick world turns) := by
  intro s
  unfold spawnTick
  split
  · rename_i ha
    split
    · exact finalizeIfDrained_follows ha
    · split
      · intro hI
        have hdrained := drained_handles turns s
        have ha' := (hdrained ⟨hI, ha⟩).1.2
        have htick := enrolls_composable.trans _ _ _ _ _ (hdrained.follows ha)
          (finalizeIfDrained_follows ha') hI
        simp only [seq, List.append_assoc] at htick ⊢
        exact htick
      · exact enrolls_composable.refl s
  · exact enrolls_composable.refl s

theorem discardPending_pending (completed : ℕ → Bool) (s : Spawner) :
    (discardPending completed s).1.numPendingEntries = 0 := by
  simp only [Spawner.numPendingEntries, discardPending, List.length_nil, Nat.sub_zero, Nat.zero_add]
  exact FoldedMap.sumBy_mapValues_zero _ fun _ => rfl

/-- What is dropped is skipped. -/
theorem discardPending_handles (completed : ℕ → Bool) :
    Meets (Handles 0) (discardPending completed) := by
  rintro s ⟨hI, ha⟩
  refine ⟨⟨⟨Nat.le_refl 0, by simp [discardPending], ?_, ?_⟩, ha⟩, ⟨rfl, rfl⟩, fun flight => ?_⟩
  · simp only [discardPending, FoldedMap.mapValues, List.mem_map]
    rintro _ ⟨p, _, rfl⟩ e he
    cases he
  · exact fun h => absurd (ha.symm.trans h) (by simp)
  · have hflight : (s.inFlightRoster (0 + flight)).outstanding = s.pendingEntries + flight := by
      rw [Spawner.inFlightRoster, zero_add]
    have hnone := pendingEntries_eq_nil (discardPending_pending completed s)
    have hafter : (discardPending completed s).1.inFlightRoster flight =
        { s.inFlightRoster (0 + flight) with
          outstanding := flight
          skipped := s.stats.skippedCount + s.pendingEntries.length } := by
      rw [Spawner.inFlightRoster, hnone, Multiset.coe_nil, zero_add, pendingEntries_length]
      rfl
    rw [hafter, discardPending, follow_append (follow_skipped .discarded _ hflight),
      follow_cancelled]
    rfl

theorem endGeneration_enrolls (discard : Bool) (completed : ℕ → Bool) :
    Enrolls (endGeneration discard completed) := by
  intro s
  unfold endGeneration
  split
  · rename_i ha
    split
    · intro hI
      have hdiscard := discardPending_handles completed s
      exact enrolls_composable.trans _ _ _ _ _ (hdiscard.follows ha)
        (finalizeGeneration_follows (hdiscard ⟨hI, ha⟩).1.2 (discardPending_pending completed s)) hI
    · split
      · exact finalizeGeneration_follows ha ‹_›
      · -- only the flag is set
        intro hI
        refine ⟨hI.congr rfl rfl rfl rfl, ?_⟩
        simp only [Spawner.roster, ha, if_true]
        rfl
  · exact enrolls_composable.refl s

/-- No generation is open once one has been ended with `EndGeneration(true)`. -/
theorem endGeneration_closes (completed : ℕ → Bool) (s : Spawner) :
    (endGeneration true completed s).1.activeTransaction = false := by
  unfold endGeneration
  split
  · rfl
  · rename_i ha
    exact Bool.eq_false_iff.mpr ha

/-- The runtime state made from a manifest has nothing waiting. -/
theorem openGeneration_pending (generationId : String)
    (manifest : Option (TMap ManifestAssetEntry)) (s : Spawner) :
    (openGeneration generationId manifest s).1.numPendingEntries = 0 := by
  cases manifest with
  | none => rfl
  | some m =>
    simp only [Spawner.numPendingEntries, openGeneration, List.length_nil, Nat.sub_zero,
      Nat.zero_add]
    exact FoldedMap.sumBy_mapValues_zero _ fun _ => rfl

theorem openGeneration_follows (generationId : String)
    (manifest : Option (TMap ManifestAssetEntry)) (ha : s.activeTransaction = false) :
    Follows enroll Consistent Spawner.roster s (openGeneration generationId manifest s).2
      (openGeneration generationId manifest s).1 := by
  refine fun _ => ⟨⟨Nat.le_refl 0, by simp [openGeneration], ?_, nofun⟩, ?_⟩
  · cases manifest with
    | none => simp [openGeneration, FoldedMap.empty]
    | some m =>
      simp only [openGeneration, FoldedMap.mapValues, List.mem_map]
      rintro _ ⟨p, _, rfl⟩ e he
      cases he
  · have hnone := pendingEntries_eq_nil (openGeneration_pending generationId manifest s)
    simp only [Spawner.roster, Spawner.inFlightRoster, hnone, ha]
    rfl

theorem beginGeneration_enrolls (generationId : String)
    (manifest : Option (TMap ManifestAssetEntry)) (completed : ℕ → Bool) :
    Enrolls (beginGeneration generationId manifest completed) := fun s =>
  enrolls_composable.trans _ _ _ _ _ (endGeneration_enrolls true completed s)
    (openGeneration_follows generationId manifest (endGeneration_closes completed s))

/-- **Every call drives the roster.** -/
theorem call_enrolls (call : SpawnCall) : Enrolls call.op := by
  cases call with
  | begin generationId manifest completed =>
    exact beginGeneration_enrolls generationId manifest completed
  | enqueue entries => exact enqueueEntries_enrolls entries
  | loaded key ans => exact loaded_enrolls key ans
  | tick world turns => exact spawnTick_enrolls world turns
  | finish discard completed => exact endGeneration_enrolls discard completed

end Entries

end AetherForge.Plugin
