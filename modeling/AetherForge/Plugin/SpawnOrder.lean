import AetherForge.Plugin.Draining
import AetherForge.Plugin.LoadTracking

/-!
# The order of spawning

Entries reach the queue by two ways: at once, when their category holds its asset, or from their
category when its load completes.  An entry goes to the queue only when none of its category waits,
so that both ways together keep the order of each category.

* `Spawner.queuedIn` — the queued entries of a category, in the order in which they will be taken;
* `InOrder` — what was queued and then what is received, against what is taken and then what is
  queued still;
* `spawns_in_order` — the order over runs, and what the entries that wait can expect.
-/

namespace AetherForge.Plugin

open Operation Transition

/-! ### The entries of a category -/

def inCategory (key : String) (entry : AssetEntry) : Bool := foldKey entry.category = foldKey key

theorem inCategory_iff {key : String} {entry : AssetEntry} :
    inCategory key entry = true ↔ foldKey entry.category = foldKey key := decide_eq_true_iff

/-- The entries that were taken from the queue. -/
def takenIn (key : String) (shown : List SpawnAction) : List AssetEntry :=
  (shown.filterMap SpawnAction.takenEntry).filter (inCategory key)

def receivedIn (key : String) (shown : List SpawnAction) : List AssetEntry :=
  (shown.filterMap SpawnAction.receivedEntry).filter (inCategory key)

namespace Spawner

def waitingIn (s : Spawner) (key : String) : List AssetEntry :=
  (s.categories.find key).elim [] CategoryRuntime.waitingEntries

/-- What is queued of a category, in the order in which it will be taken. -/
def queuedIn (s : Spawner) (key : String) : List AssetEntry :=
  (s.readyQueue.drop s.readyQueueHead).filter (inCategory key) ++ s.waitingIn key

end Spawner

/-- Within a generation: what is taken, and then what is still queued, comes in the order of what
was queued, and then of what is received. -/
structure InOrder (s : Spawner) (o : List SpawnAction) (t : Spawner) : Prop where
  goesOn : ∀ generationId, .opened generationId ∉ o
  order : ∀ key, (takenIn key o ++ t.queuedIn key).Sublist (s.queuedIn key ++ receivedIn key o)

section Order

variable {s t : Spawner} {e : Streaming}

theorem takenIn_append (key : String) (o o' : List SpawnAction) :
    takenIn key (o ++ o') = takenIn key o ++ takenIn key o' := by
  rw [takenIn, List.filterMap_append, List.filter_append]
  rfl

theorem receivedIn_append (key : String) (o o' : List SpawnAction) :
    receivedIn key (o ++ o') = receivedIn key o ++ receivedIn key o' := by
  rw [receivedIn, List.filterMap_append, List.filter_append]
  rfl

theorem inOrder_composable : Composable InOrder := by
  constructor
  · exact fun s => ⟨fun _ => List.not_mem_nil, fun key => by simp [takenIn, receivedIn]⟩
  · rintro s o t o' u ⟨hgoes, h⟩ ⟨hgoes', h'⟩
    refine ⟨fun generationId hmem => ?_, fun key => ?_⟩
    · rcases List.mem_append.mp hmem with hmem | hmem
      · exact hgoes generationId hmem
      · exact hgoes' generationId hmem
    · rw [takenIn_append, receivedIn_append, List.append_assoc,
        ← List.append_assoc (s.queuedIn key)]
      have hlater := (h' key).append_left (takenIn key o)
      rw [← List.append_assoc] at hlater
      rw [← List.append_assoc] at hlater ⊢
      exact hlater.trans ((h key).append_right _)

/-- What shows neither a receipt nor a taken entry, and leaves the queues alone. -/
theorem inOrder_of_quiet {o : List SpawnAction} (hgoes : ∀ generationId, .opened generationId ∉ o)
    (htaken : o.filterMap SpawnAction.takenEntry = [])
    (hqueued : ∀ key, (t.queuedIn key).Sublist (s.queuedIn key)) : InOrder s o t := by
  refine ⟨hgoes, fun key => ?_⟩
  rw [takenIn, htaken, List.filter_nil, List.nil_append]
  exact (hqueued key).trans (List.sublist_append_left _ _)

theorem queuedIn_congr (hcategories : t.categories = s.categories)
    (hqueue : t.readyQueue = s.readyQueue) (hhead : t.readyQueueHead = s.readyQueueHead)
    (key : String) : t.queuedIn key = s.queuedIn key := by
  rw [Spawner.queuedIn, Spawner.queuedIn, Spawner.waitingIn, Spawner.waitingIn, hcategories, hqueue,
    hhead]

/-- A change of one category that leaves its waiting entries alone. -/
theorem queuedIn_modify (key : String) {f : CategoryRuntime → CategoryRuntime}
    (hf : ∀ rt, (f rt).waitingEntries = rt.waitingEntries)
    (hcategories : t.categories = s.categories.modify key f)
    (hqueue : t.readyQueue = s.readyQueue) (hhead : t.readyQueueHead = s.readyQueueHead)
    (key' : String) : t.queuedIn key' = s.queuedIn key' := by
  have hwaiting : t.waitingIn key' = s.waitingIn key' := by
    rw [Spawner.waitingIn, Spawner.waitingIn, hcategories, FoldedMap.find_modify]
    split
    · cases s.categories.find key' with
      | none => rfl
      | some rt => exact hf rt
    · rfl
  rw [Spawner.queuedIn, Spawner.queuedIn, hwaiting, hqueue, hhead]

theorem queuedIn_touch (s : Spawner) (key : String) {f : CategoryRuntime → CategoryRuntime}
    (hf : ∀ rt, (f rt).waitingEntries = rt.waitingEntries) (key' : String) :
    Spawner.queuedIn { s with categories := s.categories.modify key f } key' = s.queuedIn key' := by
  exact queuedIn_modify (s := s) (t := { s with categories := s.categories.modify key f }) key hf
    rfl rfl rfl key'

/-- The entries that wait in a category are its own. -/
theorem Consistent.waiting_own (hI : Consistent s) {key : String} {rt : CategoryRuntime}
    (hfind : s.categories.find key = some rt) {entry : AssetEntry}
    (hentry : entry ∈ rt.waitingEntries) : foldKey entry.category = foldKey key := by
  obtain ⟨key', hmem, hkey⟩ := FoldedMap.mem_of_find hfind
  exact (hI.waiting _ hmem entry hentry).trans hkey

/-! ### Callbacks -/

/-- **A callback** keeps the order: what waited goes to the end of the queue, or is skipped. -/
theorem loaded_inOrder (key : String) (ans : LoadAnswers) (hI : Consistent s) :
    InOrder s (onCategoryAssetLoaded key ans s).2 (onCategoryAssetLoaded key ans s).1 := by
  cases hfind : s.categories.find key with
  | none =>
    simp only [onCategoryAssetLoaded, hfind]
    exact inOrder_composable.refl s
  | some rt =>
    cases hloaded : ans.loaded rt with
    | none =>
      simp only [onCategoryAssetLoaded, hfind, hloaded]
      refine inOrder_of_quiet ?_ ?_ fun key' => ?_
      · intro generationId hmem
        obtain ⟨entry, -, heq⟩ := List.mem_map.mp hmem
        cases heq
      · rw [List.filterMap_map, List.filterMap_eq_nil_iff]
        exact fun _ _ => rfl
      · refine (List.Sublist.refl _).append ?_
        simp only [Spawner.waitingIn, FoldedMap.find_modify]
        split
        · rename_i hkey
          rw [s.categories.find_congr hkey, hfind]
          exact List.nil_sublist _
        · exact List.Sublist.refl _
    | some asset =>
      simp only [onCategoryAssetLoaded, hfind, hloaded]
      refine inOrder_of_quiet (fun _ => List.not_mem_nil) rfl fun key' => ?_
      simp only [Spawner.queuedIn, Spawner.waitingIn, FoldedMap.find_modify,
        List.drop_append_of_le_length hI.head, List.filter_append, List.append_assoc]
      refine (List.Sublist.refl _).append ?_
      split
      · rename_i hkey
        have hown : rt.waitingEntries.filter (inCategory key') = rt.waitingEntries := by
          rw [List.filter_eq_self]
          intro entry hentry
          exact inCategory_iff.mpr ((hI.waiting_own hfind hentry).trans hkey.symm)
        rw [hown, s.categories.find_congr hkey, hfind]
        exact (List.append_nil _).symm ▸ List.Sublist.refl _
      · rename_i hkey
        have hothers : rt.waitingEntries.filter (inCategory key') = [] := by
          rw [List.filter_eq_nil_iff]
          intro entry hentry hmem
          exact hkey ((inCategory_iff.mp hmem).symm.trans (hI.waiting_own hfind hentry))
        rw [hothers, List.nil_append]

/-! ### Taking entries -/

/-- **Taking an entry** takes the first of those queued. -/
theorem takeEntry_inOrder {entry : AssetEntry} (ans : SpawnAnswers) (hI : Consistent s)
    (hentry : s.readyQueue[s.readyQueueHead]? = some entry) :
    InOrder s (takeEntry entry ans s).2 (takeEntry entry ans s).1 := by
  obtain ⟨hlt, hget⟩ := List.getElem?_eq_some_iff.mp hentry
  have hdrop : s.readyQueue.drop s.readyQueueHead =
      entry :: s.readyQueue.drop (s.readyQueueHead + 1) := by
    rw [List.drop_eq_getElem_cons hlt, hget]
  obtain ⟨rt, hfind⟩ := Option.isSome_iff_exists.mp (hI.ready entry (by simp [hdrop]))
  obtain ⟨⟨a, hshown, ha⟩, ⟨hqueue, hhead⟩, -, hcategories⟩ := spawnEntry_spawns entry rt ans
    { s with readyQueueHead := s.readyQueueHead + 1 }
  simp only [takeEntry, hfind]
  refine ⟨fun generationId hmem => ?_, fun key => ?_⟩
  · rw [hshown, List.mem_singleton] at hmem
    rw [← hmem] at ha
    cases ha
  · have hrest : (spawnEntry entry rt ans
        { s with readyQueueHead := s.readyQueueHead + 1 }).1.queuedIn key =
        Spawner.queuedIn { s with readyQueueHead := s.readyQueueHead + 1 } key := by
      rcases hcategories with hsame | hmarked
      · exact queuedIn_congr hsame hqueue hhead key
      · refine queuedIn_modify entry.category ?_ hmarked hqueue hhead key
        exact fun _ => rfl
    have htaken : takenIn key [a] = [entry].filter (inCategory key) := by
      rw [takenIn, List.filterMap_cons_some ha, List.filterMap_nil]
    rw [hrest, hshown, htaken, Spawner.queuedIn, Spawner.queuedIn, hdrop, ← List.append_assoc,
      ← List.filter_append, List.singleton_append]
    exact List.sublist_append_left _ _

theorem compact_inOrder (s : Spawner) : InOrder s (compact s).2 (compact s).1 := by
  unfold compact
  split
  · rename_i hle
    refine inOrder_of_quiet (fun _ => List.not_mem_nil) rfl fun key => ?_
    rw [Spawner.queuedIn, Spawner.queuedIn, List.drop_eq_nil_of_le hle]
    exact List.Sublist.refl _
  · exact inOrder_composable.refl s

theorem publishPending_inOrder (s : Spawner) :
    InOrder s (publishPending s).2 (publishPending s).1 :=
  inOrder_of_quiet (fun _ => List.not_mem_nil) rfl fun _ => List.Sublist.refl _

/-! ### Receiving entries -/

/-- Where a queued entry goes: behind the others of its category. -/
theorem queueEntry_queuedIn {entry : AssetEntry} {rt : CategoryRuntime}
    (hhead : s.readyQueueHead ≤ s.readyQueue.length)
    (hfind : s.categories.find entry.category = some rt)
    (hnone : rt.loadedAsset.isSome = true → rt.waitingEntries = []) (key : String) :
    (queueEntry entry true s).1.queuedIn key =
      s.queuedIn key ++ [entry].filter (inCategory key) := by
  simp only [queueEntry, hfind, Bool.and_true]
  by_cases hkey : foldKey key = foldKey entry.category
  · have hown : [entry].filter (inCategory key) = [entry] := by
      rw [List.filter_cons_of_pos (inCategory_iff.mpr hkey.symm), List.filter_nil]
    have hfind' : s.categories.find key = some rt := by rw [s.categories.find_congr hkey, hfind]
    split
    · rename_i hasset
      simp only [Spawner.queuedIn, Spawner.waitingIn, List.drop_append_of_le_length hhead,
        List.filter_append, hown, hfind', Option.elim_some, hnone hasset, List.append_nil]
    · simp only [Spawner.queuedIn, Spawner.waitingIn, FoldedMap.find_modify, if_pos hkey, hown,
        hfind', Option.map_some, Option.elim_some, CategoryRuntime.addWaiting, List.append_assoc]
  · have hother : [entry].filter (inCategory key) = [] := by
      rw [List.filter_cons_of_neg fun hmem => hkey (inCategory_iff.mp hmem).symm, List.filter_nil]
    split
    · simp only [Spawner.queuedIn, Spawner.waitingIn, List.drop_append_of_le_length hhead,
        List.filter_append, hother, List.append_nil]
    · simp only [Spawner.queuedIn, Spawner.waitingIn, FoldedMap.find_modify, if_neg hkey, hother,
        List.append_nil]

/-- A received entry goes behind the others of its category, or is skipped. -/
theorem inOrder_received {entry : AssetEntry} {o : List SpawnAction}
    (hgoes : ∀ generationId, .opened generationId ∉ o)
    (htaken : o.filterMap SpawnAction.takenEntry = [])
    (hqueued : ∀ key, (t.queuedIn key).Sublist
      (s.queuedIn key ++ [entry].filter (inCategory key))) :
    InOrder s (.received entry :: o) t := by
  refine ⟨fun generationId hmem => ?_, fun key => ?_⟩
  · rcases List.mem_cons.mp hmem with heq | hmem
    · cases heq
    · exact hgoes generationId hmem
  · have hreceived : receivedIn key (.received entry :: o) =
        [entry].filter (inCategory key) ++ receivedIn key o :=
      receivedIn_append key [.received entry] o
    have hnone : takenIn key (.received entry :: o) = [] := by
      rw [takenIn, List.filterMap_cons_none rfl, htaken, List.filter_nil]
    rw [hnone, hreceived, List.nil_append, ← List.append_assoc]
    exact (hqueued key).trans (List.sublist_append_left _ _)

theorem requestedBy_queuedIn (key : String) (e : Streaming) (key' : String) :
    (requestedBy key e).spawner.queuedIn key' = e.spawner.queuedIn key' := by
  have hfirst := queuedIn_touch e.spawner key (f := .requested) (fun _ => rfl) key'
  rw [← hfirst]
  exact queuedIn_modify (t := (requestedBy key e).spawner)
    (s := { e.spawner with categories := e.spawner.categories.modify key .requested }) key
    (f := fun rt => { rt with loadHandle := some e.spawner.requests }) (fun _ => rfl) rfl rfl rfl
    key'

/-- Where the entries of a category go that holds its asset: none of them waits. -/
theorem Tracked.none_waits (hT : Tracked e) {key : String} {rt : CategoryRuntime}
    (hfind : e.spawner.categories.find key = some rt) (hasset : rt.loadedAsset.isSome = true) :
    rt.waitingEntries = [] := by
  by_contra hwaiting
  rw [((hT.awaits key rt hfind).waiting hwaiting).2] at hasset
  cases hasset

/-- **Every way through the loop body** keeps the order. -/
theorem receiveEntry_inOrder (entry : AssetEntry) (hI : Consistent e.spawner) (hT : Tracked e) :
    InOrder e.spawner (spawnActions (ofSpawner (receiveEntry (entry, loadLater)) e).2)
      (ofSpawner (receiveEntry (entry, loadLater)) e).1.spawner := by
  rw [ofSpawner_receiveEntry]
  show InOrder _ (.received entry :: spawnActions (ofSpawner (enqueueEntry entry loadLater) e).2) _
  rcases enqueueEntry_cases entry e with ⟨why, hwhy, hskipped⟩ | ⟨rt, hfind, ⟨-, hpathless⟩ |
    ⟨-, -, hqueued⟩ | ⟨hfirst, -, hrequests⟩⟩
  · have hshown : spawnActions (ofSpawner (enqueueEntry entry loadLater) e).2 =
        [.skipped entry why] := by rw [hskipped]; rfl
    rw [hshown, hskipped]
    refine inOrder_received (by simp) ?_ fun key => List.sublist_append_left _ _
    rcases hwhy with rfl | rfl <;> rfl
  · have hshown : spawnActions (ofSpawner (enqueueEntry entry loadLater) e).2 =
        [.skipped entry .noAssetPath] := by rw [hpathless]; rfl
    rw [hshown, hpathless]
    refine inOrder_received (by simp) rfl fun key => ?_
    have htouched := queuedIn_touch e.spawner entry.category (f := .pathless) (fun _ => rfl) key
    rw [← htouched]
    exact List.sublist_append_left _ _
  · have hshown : spawnActions (ofSpawner (enqueueEntry entry loadLater) e).2 = [] := by
      rw [hqueued, ofSpawner, spawnActions_map, queueEntry_quiet]
    rw [hshown, hqueued]
    refine inOrder_received (fun _ => List.not_mem_nil) rfl fun key => ?_
    exact (queueEntry_queuedIn hI.head hfind (hT.none_waits hfind) key) ▸ List.Sublist.refl _
  · have hshown : spawnActions (ofSpawner (enqueueEntry entry loadLater) e).2 =
        [.requested e.spawner.requests entry.category] := by rw [hrequests]; rfl
    rw [hshown, hrequests]
    refine inOrder_received (by simp) rfl fun key => ?_
    have hfound : (requestedBy entry.category e).spawner.categories.find entry.category =
        some { rt with loadRequested := true, loadHandle := some e.spawner.requests } := by
      simp only [requestedBy, FoldedMap.find_modify, if_true, hfind, Option.map_some]
      rfl
    have hnone : rt.loadedAsset.isSome = true → rt.waitingEntries = [] := hT.none_waits hfind
    have hplace := queueEntry_queuedIn (s := (requestedBy entry.category e).spawner) hI.head hfound
      hnone key
    rw [requestedBy_queuedIn] at hplace
    exact hplace ▸ List.Sublist.refl _

/-! ### Within a generation -/

/-- In an open generation, the invariants and the order are kept. -/
def Moves (e : Streaming) (o : List StreamAction) (e' : Streaming) : Prop :=
  Open e.spawner → Tracked e → Open e'.spawner ∧ Tracked e' ∧
    InOrder e.spawner (spawnActions o) e'.spawner

theorem moves_composable : Composable Moves := by
  constructor
  · exact fun e hs hT => ⟨hs, hT, inOrder_composable.refl e.spawner⟩
  · intro e o e' o' e'' h h' hs hT
    obtain ⟨hs', hT', horder⟩ := h hs hT
    obtain ⟨hs'', hT'', horder'⟩ := h' hs' hT'
    refine ⟨hs'', hT'', ?_⟩
    rw [spawnActions_append]
    exact inOrder_composable.trans _ _ _ _ _ horder horder'

theorem receiveEntry_moves (entry : AssetEntry) :
    Meets Moves (ofSpawner (receiveEntry (entry, loadLater))) := by
  intro e hs hT
  refine ⟨(receiveEntry_handles (entry, loadLater) e.spawner hs).1, ?_,
    receiveEntry_inOrder entry hs.1 hT⟩
  rw [ofSpawner_receiveEntry]
  exact enqueueEntry_tracked entry hT

theorem takeEntry_moves {entry : AssetEntry} (ans : SpawnAnswers)
    (hentry : e.spawner.readyQueue[e.spawner.readyQueueHead]? = some entry) :
    Moves e (ofSpawner (takeEntry entry ans) e).2 (ofSpawner (takeEntry entry ans) e).1 := by
  intro hs hT
  refine ⟨(takeEntry_handles ans hentry hs).1, takeEntry_tracked entry ans hT, ?_⟩
  rw [ofSpawner, spawnActions_map]
  exact takeEntry_inOrder ans hs.1 hentry

/-- A delivered callback keeps the order, whichever generation it belongs to. -/
theorem deliver_inOrder (handle : ℕ) (ans : LoadAnswers) (hI : Consistent e.spawner) :
    InOrder e.spawner (spawnActions (deliver handle ans e).2) (deliver handle ans e).1.spawner :=
  deliver_by (inOrder_composable.refl e.spawner) fun key => loaded_inOrder key ans hI

theorem deliver_moves (handle : ℕ) (ans : LoadAnswers) : Meets Moves (deliver handle ans) := by
  intro e hs hT
  refine ⟨?_, deliver_tracked handle ans hT, deliver_inOrder handle ans hs.1⟩
  exact deliver_by (R := fun _ _ t => Open t) hs fun key => (loaded_handles key ans e.spawner hs).1

/-- **The loop of a tick** keeps the order, whatever is delivered in it. -/
theorem streamDrain_moves (turns : List StreamTurn) : Meets Moves (streamDrain turns) :=
  streamDrain_meets moves_composable (fun _ _ ans hentry => takeEntry_moves ans hentry)
    deliver_moves turns

/-! ### Whole events -/

/-- The order of a generation, by what has been shown of it. -/
def Ordered (shown : List SpawnAction) (s : Spawner) : Prop :=
  ∀ key, (takenIn key shown ++ s.queuedIn key).Sublist (receivedIn key shown)

/-- What keeps the order within a generation. -/
theorem InOrder.ordered {o shown : List SpawnAction} (h : InOrder s o t) (hs : Ordered shown s) :
    Ordered (o.foldl since shown) t := by
  intro key
  rw [foldl_since h.goesOn, takenIn_append, receivedIn_append, List.append_assoc]
  have hlater := (h.order key).append_left (takenIn key shown)
  rw [← List.append_assoc (takenIn key shown) (s.queuedIn key)] at hlater
  exact hlater.trans ((hs key).append_right _)

/-- An emptied spawner. -/
theorem queuedIn_empty (hcategories : s.categories = .empty) (hqueue : s.readyQueue = [])
    (key : String) : s.queuedIn key = [] := by
  rw [Spawner.queuedIn, Spawner.waitingIn, hcategories, hqueue, List.drop_nil]
  rfl

theorem finalizeIfDrained_inOrder (s : Spawner) :
    InOrder s (finalizeIfDrained s).2 (finalizeIfDrained s).1 := by
  unfold finalizeIfDrained
  split
  · refine inOrder_of_quiet (by simp [finalizeGeneration]) rfl fun key => ?_
    rw [queuedIn_empty rfl rfl]
    exact List.nil_sublist _
  · exact inOrder_composable.refl s

theorem endGeneration_inOrder (discard : Bool) (completed : ℕ → Bool) (s : Spawner) :
    InOrder s (endGeneration discard completed s).2 (endGeneration discard completed s).1 := by
  have hending := endGeneration_ending discard completed s
  refine inOrder_of_quiet (fun generationId hmem => hending _ hmem) ?_ fun key => ?_
  · rw [List.filterMap_eq_nil_iff]
    intro a ha
    have hdiscarded := hending a ha
    cases a with
    | skipped entry why =>
      obtain rfl : why = .discarded := hdiscarded
      rfl
    | cancelled | finalized => rfl
    | opened | received | requested | spawned => exact absurd hdiscarded id
  · obtain ⟨-, ⟨hcategories, hqueue⟩ | ⟨hcategories, hqueue, hhead, -⟩⟩ :=
      endGeneration_cases discard completed s
    · rw [queuedIn_empty hcategories hqueue]
      exact List.nil_sublist _
    · rw [queuedIn_congr hcategories hqueue hhead]

/-- Nothing is queued when a generation is opened. -/
theorem openGeneration_queuedIn (generationId : String)
    (manifest : Option (TMap ManifestAssetEntry)) (s : Spawner) (key : String) :
    (openGeneration generationId manifest s).1.queuedIn key = [] := by
  have hwaiting : (openGeneration generationId manifest s).1.waitingIn key = [] := by
    cases hfind : (openGeneration generationId manifest s).1.categories.find key with
    | none => rw [Spawner.waitingIn, hfind, Option.elim_none]
    | some rt =>
      obtain ⟨entry, rfl⟩ := find_opened hfind
      rw [Spawner.waitingIn, hfind, Option.elim_some]
      rfl
  rw [Spawner.queuedIn, hwaiting, List.append_nil]
  rfl

theorem streamBegin_ordered (generationId : String) (manifest : Option (TMap ManifestAssetEntry))
    (shown : List SpawnAction) :
    Ordered ((spawnActions (streamBegin generationId manifest e).2).foldl since shown)
      (streamBegin generationId manifest e).1.spawner := by
  have hshown : (spawnActions (streamBegin generationId manifest e).2).foldl since shown = [] := by
    rw [streamBegin, ofSpawner, spawnActions_map, beginGeneration, seq, List.foldl_append]
    rfl
  intro key
  have hqueued : (streamBegin generationId manifest e).1.spawner.queuedIn key = [] :=
    openGeneration_queuedIn generationId manifest _ key
  rw [hshown, hqueued]
  exact List.Sublist.refl _

/-- What the manager does not see of an operation of the spawner. -/
theorem ofSpawner_inOrder {f : SpawnOp} (h : Meets InOrder f) (e : Streaming) :
    InOrder e.spawner (spawnActions (ofSpawner f e).2) (ofSpawner f e).1.spawner := by
  rw [ofSpawner, spawnActions_map]
  exact h e.spawner

theorem streamEnqueue_inOrder (entries : List AssetEntry) (hI : Consistent e.spawner)
    (hT : Tracked e) : InOrder e.spawner (spawnActions (streamEnqueue entries e).2)
      (streamEnqueue entries e).1.spawner := by
  rcases Bool.eq_false_or_eq_true e.spawner.activeTransaction with ha | ha
  · obtain ⟨-, -, hreceived⟩ :=
      meets_forEach moves_composable receiveEntry_moves entries e ⟨hI, ha⟩ hT
    rw [streamEnqueue_open entries ha, seq, spawnActions_append]
    exact inOrder_composable.trans _ _ _ _ _ hreceived
      (ofSpawner_inOrder publishPending_inOrder _)
  · rw [streamEnqueue_closed entries ha]
    exact inOrder_composable.refl e.spawner

theorem streamTick_inOrder (world : Bool) (turns : List StreamTurn) (hI : Consistent e.spawner)
    (hT : Tracked e) : InOrder e.spawner (spawnActions (streamTick world turns e).2)
      (streamTick world turns e).1.spawner := by
  unfold streamTick
  split
  · rename_i ha
    split
    · exact ofSpawner_inOrder finalizeIfDrained_inOrder e
    · split
      · obtain ⟨-, -, hdrained⟩ := streamDrain_moves turns e ⟨hI, ha⟩ hT
        have hend : Meets InOrder (seq compact (seq publishPending finalizeIfDrained)) :=
          meets_seq inOrder_composable compact_inOrder
            (meets_seq inOrder_composable publishPending_inOrder finalizeIfDrained_inOrder)
        rw [seq, spawnActions_append]
        exact inOrder_composable.trans _ _ _ _ _ hdrained (ofSpawner_inOrder hend _)
      · exact inOrder_composable.refl e.spawner
  · exact inOrder_composable.refl e.spawner

/-- A collected asset takes no entry with it. -/
theorem collected_waiting (rt : CategoryRuntime) :
    rt.collected.waitingEntries = rt.waitingEntries := by
  unfold CategoryRuntime.collected
  split <;> rfl

/-- **Every event keeps the order.** -/
theorem event_ordered (event : StreamEvent) {shown : List SpawnAction}
    (hI : Consistent e.spawner) (hT : Tracked e) (hshown : Ordered shown e.spawner) :
    Ordered ((spawnActions (event.op e).2).foldl since shown) (event.op e).1.spawner := by
  cases event with
  | begin generationId manifest => exact streamBegin_ordered generationId manifest shown
  | enqueue entries => exact (streamEnqueue_inOrder entries hI hT).ordered hshown
  | complete handle => exact hshown
  | deliver handle ans => exact (deliver_inOrder handle ans hI).ordered hshown
  | collect key =>
    intro key'
    have hsame := hshown key'
    rw [← queuedIn_touch e.spawner key collected_waiting key'] at hsame
    exact hsame
  | tick world turns => exact (streamTick_inOrder world turns hI hT).ordered hshown
  | finish discard =>
    exact (ofSpawner_inOrder (endGeneration_inOrder discard (hasLoadCompleted e)) e).ordered hshown

/-- **Every event keeps the queues consistent.** -/
theorem event_consistent (event : StreamEvent) (hI : Consistent e.spawner) :
    Consistent (event.op e).1.spawner := by
  rcases event_refines event e with ⟨calls, hcalls⟩ | ⟨key, hcollected⟩
  · refine exec_invariant (I := Consistent) ?_ hI hcalls
    intro s call s' o hs hstep
    have hkept := (call_enrolls call s hs).1
    rwa [Option.some.inj hstep] at hkept
  · have hspawner : (event.op e).1.spawner = { e.spawner with
        categories := e.spawner.categories.modify key .collected } := congrArg Prod.fst hcollected
    rw [hspawner]
    exact hI.touch key collected_waiting

end Order

/-! ### Runs -/

/-- What has been shown of the generation that was opened last. -/
def thisGeneration (past : List StreamAction) : List SpawnAction :=
  (spawnActions past).foldl since []

/-- What holds after every run. -/
theorem run_ordered {events : List StreamEvent} {e : Streaming} {past : List StreamAction}
    (h : exec (toStep StreamEvent.op) .start events = some (e, past)) :
    Consistent e.spawner ∧ Tracked e ∧ Ordered (thisGeneration past) e.spawner := by
  have hrule : Consistent e.spawner ∧ Tracked e ∧
      Ordered (thisGeneration ([] ++ past)) e.spawner := by
    refine exec_history (J := fun past e => Consistent e.spawner ∧ Tracked e ∧
      Ordered (thisGeneration past) e.spawner) ?_ ?_ h
    · rintro past e event e' o ⟨hI, hT, hordered⟩ hstep
      have hop : event.op e = (e', o) := Option.some.inj hstep
      have hI' := event_consistent event hI
      have hT' := event_tracked event e hT
      have hordered' := event_ordered event hI hT hordered
      rw [hop] at hI' hT' hordered'
      refine ⟨hI', hT', ?_⟩
      rwa [thisGeneration, spawnActions_append, List.foldl_append]
    · exact ⟨consistent_start, tracked_start, fun _ => List.Sublist.refl _⟩
  exact hrule

/-- A callback leaves none of the entries of its category waiting. -/
theorem callBack_releases (load : Load) (ans : LoadAnswers) (e : Streaming) {key : String}
    (hkey : foldKey load.key = foldKey key) :
    (callBack load ans e).1.spawner.waitingIn key = [] := by
  have hcalled : (callBack load ans e).1.spawner =
      (onCategoryAssetLoaded load.key ans e.spawner).1 := rfl
  rw [hcalled, Spawner.waitingIn, find_loaded, if_pos hkey.symm]
  cases e.spawner.categories.find key with
  | none => rfl
  | some rt =>
    rw [Option.map_some, Option.elim_some, CategoryRuntime.answered]
    cases ans.loaded rt <;> rfl

/-- **Spawn order, and no stranded entries.**  After every sequence of calls of the spawner and of
completed loads, delivered callbacks and collected assets:

* the entries of each category that were taken for spawning in the last generation are a sublist of
  those received in it: they come in the order of receipt, and each at most once;
* an entry waits only in a category that has requested its load, in this generation, and the
  callback of that load is still to come, and leaves nothing waiting there. -/
theorem spawns_in_order {events : List StreamEvent} {e : Streaming} {past : List StreamAction}
    (h : exec (toStep StreamEvent.op) .start events = some (e, past)) :
    (∀ key, (takenIn key (thisGeneration past)).Sublist (receivedIn key (thisGeneration past))) ∧
    ∀ key rt, e.spawner.categories.find key = some rt → rt.waitingEntries ≠ [] →
      rt.loadRequested = true ∧ ∃ load ∈ e.loads, rt.loadHandle = some load.handle ∧
        load.generation = e.generation ∧ foldKey load.key = foldKey key ∧
        ∀ ans, (callBack load ans e).1.spawner.waitingIn key = [] := by
  obtain ⟨-, hT, hordered⟩ := run_ordered h
  refine ⟨fun key => ?_, fun key rt hfind hwaiting => ?_⟩
  · exact (List.sublist_append_left _ _).trans (hordered key)
  · obtain ⟨hrequested, load, hload, hhandle, hgeneration, hkey⟩ := hT.expects hfind hwaiting
    exact ⟨hrequested, load, hload, hhandle, hgeneration, hkey,
      fun ans => callBack_releases load ans e hkey⟩

/-- Two categories with assets. -/
def heathManifest : TMap ManifestAssetEntry where
  entries := [("tree", ⟨some "/Game/Tree", 1, false, false, "Tree"⟩),
    ("fern", ⟨some "/Game/Fern", 1, false, false, "Fern"⟩)]
  distinct := by decide

def heathEntry (category : String) (x : ℚ) : AssetEntry := ⟨category, ⟨⟨x, 0⟩, 0, 1⟩, false, []⟩

/-- The trees are loaded between two chunks, and the ferns are not; the budget allows two
entries. -/
def heathEvents : List StreamEvent :=
  [.begin "gen-1" (some heathManifest),
    .enqueue [heathEntry "tree" 1, heathEntry "fern" 1, heathEntry "Tree" 2],
    .complete 0, .deliver 0 ⟨some (.staticMesh 0), none⟩,
    .enqueue [heathEntry "tree" 3, heathEntry "fern" 2],
    .tick true [⟨⟨none, true, true, true, true, true⟩, []⟩,
      ⟨⟨none, true, true, true, true, true⟩, []⟩]]

theorem spawns_in_order_heath :
    ∃ e past rt, exec (toStep StreamEvent.op) .start heathEvents = some (e, past) ∧
      takenIn "tree" (thisGeneration past) = [heathEntry "tree" 1, heathEntry "Tree" 2] ∧
      (takenIn "tree" (thisGeneration past)).Sublist (receivedIn "tree" (thisGeneration past)) ∧
      e.spawner.categories.find "fern" = some rt ∧
      rt.waitingEntries = [heathEntry "fern" 1, heathEntry "fern" 2] ∧
      ∃ load ∈ e.loads, rt.loadHandle = some load.handle := by
  have hrun : (exec (toStep StreamEvent.op) .start heathEvents).map (fun p =>
      (takenIn "tree" (thisGeneration p.2),
        (p.1.spawner.categories.find "fern").map CategoryRuntime.waitingEntries)) =
      some ([heathEntry "tree" 1, heathEntry "Tree" 2],
        some [heathEntry "fern" 1, heathEntry "fern" 2]) := by
    decide +kernel
  obtain ⟨⟨e, past⟩, hexec, hstate⟩ := Option.map_eq_some_iff.mp hrun
  obtain ⟨htaken, hferns⟩ := Prod.mk.inj hstate
  obtain ⟨rt, hfind, hwaiting⟩ := Option.map_eq_some_iff.mp hferns
  obtain ⟨hordered, hexpects⟩ := spawns_in_order hexec
  obtain ⟨-, load, hload, hhandle, -⟩ := hexpects "fern" rt hfind (by rw [hwaiting]; simp)
  exact ⟨e, past, rt, hexec, htaken, hordered "tree", hfind, hwaiting, load, hload, hhandle⟩

end AetherForge.Plugin
