import AetherForge.Plugin.Draining
import AetherForge.Plugin.SpawnOrder

/-!
# The end of a completed generation

Once its complete has been handled, a generation stays open until its queues are empty.  What is
left to be done until then is counted: entries that are queued, loads that have not completed, and
callbacks that are to come.

* `Streaming.remaining` — what remains to be done;
* `event_winds` — an event that advances the generation ends it, or leaves less to be done;
* `generation_ends` — something can always be done, and the generation has ended once more has been
  done than remained.
-/

namespace AetherForge.Plugin

open Operation Transition

/-! ### What remains -/

/-- A load is to complete, and its callback to be delivered. -/
def Load.steps (load : Load) : ℕ := if load.completed then 1 else 2

def Streaming.remaining (e : Streaming) : ℕ :=
  e.spawner.numPendingEntries + (e.loads.map Load.steps).sum

/-- The events between the complete of a generation and its end: no entry comes in, and nothing is
started or cancelled. -/
def StreamEvent.winds : StreamEvent → Bool
  | .begin _ _ => false
  | .enqueue _ => false
  | .finish discard => !discard
  | _ => true

/-- The event does something: a load completes, a callback is delivered, an entry is taken from the
queue, or nothing is found to be pending. -/
def StreamEvent.advances (e : Streaming) : StreamEvent → Bool
  | .complete handle => e.loads.any fun load => load.handle = handle && !load.completed
  | .deliver handle _ => e.loads.any fun load => load.handle = handle && load.completed
  | .tick world turns =>
    e.spawner.numPendingEntries = 0 ||
      (world && !turns.isEmpty && decide (e.spawner.readyQueueHead < e.spawner.readyQueue.length))
  | _ => false

/-- An open generation that has been completed, with its entries. -/
structure Winding (n : ℕ) (e : Streaming) : Prop where
  opened : Open e.spawner
  drains : e.spawner.finalizeWhenDrained = true
  total : e.spawner.total = n

/-- The broadcast of a generation all of whose entries have been processed. -/
def Ends (n : ℕ) (x : StreamAction) : Prop :=
  ∃ stats, x = .spawner (.finalized stats []) ∧ stats.spawnedCount + stats.skippedCount = n

/-- The generation stays open, and at least `k` less remains. -/
def Winds (k : ℕ) (e : Streaming) (_ : List StreamAction) (e' : Streaming) : Prop :=
  ∀ n, Winding n e → Winding n e' ∧ k + e'.remaining ≤ e.remaining

theorem winds_composable : Composable (Winds 0) := by
  constructor
  · exact fun e n h => ⟨h, Nat.le_of_eq (Nat.zero_add _)⟩
  · intro e o e' o' e'' h h' n hn
    obtain ⟨hn', hle⟩ := h n hn
    obtain ⟨hn'', hle'⟩ := h' n hn'
    exact ⟨hn'', by omega⟩

section Parts

variable {e e' : Streaming} {k : ℕ} {o o' : List StreamAction}

theorem Winds.weaken {k' : ℕ} (h : Winds k e o e') (hk : k' ≤ k) : Winds k' e o e' := by
  intro n hn
  obtain ⟨hn', hle⟩ := h n hn
  exact ⟨hn', by omega⟩

theorem Winds.trans {e'' : Streaming} (h : Winds k e o e') (h' : Winds 0 e' o' e'') :
    Winds k e (o ++ o') e'' := by
  intro n hn
  obtain ⟨hn', hle⟩ := h n hn
  obtain ⟨hn'', hle'⟩ := h' n hn'
  exact ⟨hn'', by omega⟩

/-! ### Entries -/

theorem received_progress {o : List SpawnAction} (ho : ∀ x ∈ o, x.Progress) : received o = 0 := by
  rw [received, Multiset.coe_eq_zero, List.filterMap_eq_nil_iff]
  intro x hx
  cases x with
  | received entry => exact absurd (ho _ hx) id
  | opened | requested | spawned | skipped | cancelled | finalized => rfl

/-- What is processed no longer remains. -/
theorem ofSpawner_winds {f : SpawnOp}
    (hhandles : Handles 0 e.spawner (f e.spawner).2 (f e.spawner).1)
    (hprogress : ∀ x ∈ (f e.spawner).2, x.Progress)
    (hunnoticed : ∀ x ∈ (f e.spawner).2, ∀ e, observe e x = e) :
    Winds (processed (f e.spawner).2).card e (ofSpawner f e).2 (ofSpawner f e).1 := by
  rintro n ⟨hopen, hdrains, htotal⟩
  obtain ⟨hopen', hsame, hroster⟩ := hhandles hopen
  have hloads : (ofSpawner f e).1.loads = e.loads := by
    simp only [ofSpawner]
    rw [foldl_observe_same hunnoticed]
  have hintake := follow_intake (fun x hx => .inr (hprogress x hx)) (hroster 0)
  simp only [Spawner.inFlightRoster, add_zero, received_progress hprogress] at hintake
  have hcount := congrArg Multiset.card hintake
  rw [Multiset.card_add, Multiset.coe_card, Multiset.coe_card, pendingEntries_length,
    pendingEntries_length] at hcount
  refine ⟨⟨hopen', hsame.2.trans hdrains, ?_⟩, ?_⟩
  · have hkept := hhandles.settles.total (fun x hx => (hprogress x hx).within) hopen
    rw [Multiset.card_zero, Nat.add_zero] at hkept
    exact hkept.trans htotal
  · rw [Streaming.remaining, Streaming.remaining, hloads, hcount]
    exact Nat.le_of_eq (Nat.add_assoc _ _ _).symm

/-- **Taking an entry** leaves one less. -/
theorem takeEntry_winds {entry : AssetEntry} (ans : SpawnAnswers)
    (hentry : e.spawner.readyQueue[e.spawner.readyQueueHead]? = some entry) :
    Winds 1 e (ofSpawner (takeEntry entry ans) e).2 (ofSpawner (takeEntry entry ans) e).1 := by
  intro n hn
  obtain ⟨hlt, hget⟩ := List.getElem?_eq_some_iff.mp hentry
  have hmem : entry ∈ e.spawner.readyQueue.drop e.spawner.readyQueueHead := by
    rw [List.drop_eq_getElem_cons hlt, hget]
    exact List.mem_cons_self
  obtain ⟨rt, hfind⟩ := Option.isSome_iff_exists.mp (hn.opened.1.ready entry hmem)
  -- one action is shown, and it is about the entry
  obtain ⟨a, hshown, ha⟩ : ∃ a, (takeEntry entry ans e.spawner).2 = [a] ∧
      a.takenEntry = some entry := by
    simp only [takeEntry, hfind]
    exact (spawnEntry_spawns entry rt ans _).shown
  have hprocessed : (processed (takeEntry entry ans e.spawner).2).card = 1 := by
    rw [hshown]
    cases a with
    | spawned | skipped => rfl
    | opened | received | requested | cancelled | finalized => cases ha
  rw [← hprocessed]
  refine ofSpawner_winds (takeEntry_handles ans hentry) (takeEntry_progresses entry ans _) ?_ n hn
  intro x hx
  rw [hshown] at hx
  rw [List.mem_singleton.mp hx]
  exact observe_taken ha

theorem loaded_winds (key : String) (ans : LoadAnswers) :
    Meets (Winds 0) (ofSpawner (onCategoryAssetLoaded key ans)) := by
  intro e
  refine (ofSpawner_winds (loaded_handles key ans _) (loaded_progresses key ans _)
    fun x hx e' => ?_).weaken (Nat.zero_le _)
  have hprogress := loaded_progresses key ans e.spawner x hx
  cases x with
  | spawned | skipped | received | finalized => rfl
  | requested handle category =>
    unfold onCategoryAssetLoaded at hx
    split at hx
    · cases hx
    · split at hx
      · obtain ⟨_, -, heq⟩ := List.mem_map.mp hx
        cases heq
      · cases hx
  | opened | cancelled => exact absurd hprogress id

/-! ### Loads -/

theorem Load.steps_pos (load : Load) : 1 ≤ load.steps := by
  unfold Load.steps
  split <;> omega

theorem sum_steps_filter_le (loads : List Load) (p : Load → Bool) :
    ((loads.filter p).map Load.steps).sum ≤ (loads.map Load.steps).sum := by
  induction loads with
  | nil => exact Nat.le_refl _
  | cons l loads ih =>
    rw [List.filter_cons]
    split <;> simp only [List.map_cons, List.sum_cons] <;> omega

/-- Without a load, less remains. -/
theorem sum_steps_filter {loads : List Load} {load : Load} (h : load ∈ loads) :
    1 + ((loads.filter (·.handle ≠ load.handle)).map Load.steps).sum ≤
      (loads.map Load.steps).sum := by
  induction loads with
  | nil => cases h
  | cons l loads ih =>
    rw [List.filter_cons, List.map_cons, List.sum_cons]
    rcases List.mem_cons.mp h with rfl | hmem
    · have hle := sum_steps_filter_le loads (·.handle ≠ load.handle)
      have hpos := load.steps_pos
      rw [if_neg (by simp)]
      omega
    · have hless := ih hmem
      split
      · rw [List.map_cons, List.sum_cons]
        omega
      · omega

/-- A load that completes leaves less to be done. -/
theorem sum_steps_completed (loads : List Load) (handle : ℕ) :
    (loads.any fun load => load.handle = handle && !load.completed).toNat +
        ((loads.map fun load =>
          if load.handle = handle then { load with completed := true } else load).map
            Load.steps).sum ≤ (loads.map Load.steps).sum := by
  induction loads with
  | nil => exact Nat.le_refl _
  | cons l loads ih =>
    simp only [List.any_cons, List.map_cons, List.sum_cons]
    by_cases hhandle : l.handle = handle
    · have hsteps : Load.steps { l with completed := true } = 1 := rfl
      rw [if_pos hhandle, hsteps, decide_eq_true hhandle, Bool.true_and]
      cases hcompleted : l.completed with
      | true =>
        have hpos := l.steps_pos
        simp only [Bool.not_true, Bool.false_or]
        omega
      | false =>
        have htwo : l.steps = 2 := by rw [Load.steps, hcompleted]; rfl
        simp only [Bool.not_false, Bool.true_or, Bool.toNat_true]
        have hle := Nat.le_trans (Nat.le_add_left _ _) ih
        omega
    · rw [if_neg hhandle, decide_eq_false hhandle, Bool.false_and, Bool.false_or]
      omega

/-- **A callback** is no longer to come. -/
theorem callBack_winds {load : Load} (hload : load ∈ e.loads) (ans : LoadAnswers) :
    Winds 1 e (callBack load ans e).2 (callBack load ans e).1 := by
  rintro n ⟨hopen, hdrains, htotal⟩
  have hcalled := loaded_winds load.key ans
    { e with loads := e.loads.filter (·.handle ≠ load.handle) } n ⟨hopen, hdrains, htotal⟩
  refine ⟨hcalled.1, ?_⟩
  have hless := sum_steps_filter hload
  have hle := hcalled.2
  simp only [Streaming.remaining] at hle ⊢
  refine Nat.le_trans (Nat.add_le_add_left (Nat.zero_add _ ▸ hle) 1) ?_
  omega

/-- A callback that is delivered is no longer to come. -/
theorem deliver_winds (handle : ℕ) (ans : LoadAnswers) (e : Streaming) :
    Winds (StreamEvent.advances e (.deliver handle ans)).toNat e (deliver handle ans e).2
      (deliver handle ans e).1 := by
  cases hload : e.loads.find? fun load => load.handle = handle && load.completed with
  | none =>
    have hnone : StreamEvent.advances e (.deliver handle ans) = false := by
      rw [StreamEvent.advances, List.any_eq_false]
      exact fun load hmem => List.find?_eq_none.mp hload load hmem
    simp only [deliver, hload, hnone]
    exact winds_composable.refl e
  | some load =>
    simp only [deliver, hload]
    exact (callBack_winds (List.mem_of_find?_eq_some hload) ans).weaken (Bool.toNat_le _)

theorem completeLoad_winds (handle : ℕ) (e : Streaming) :
    Winds (StreamEvent.advances e (.complete handle)).toNat e (completeLoad handle e).2
      (completeLoad handle e).1 := by
  rintro n ⟨hopen, hdrains, htotal⟩
  refine ⟨⟨hopen, hdrains, htotal⟩, ?_⟩
  have hless := sum_steps_completed e.loads handle
  simp only [Streaming.remaining, completeLoad, StreamEvent.advances]
  omega

/-- A collected asset changes nothing of this. -/
theorem collectAsset_winds (key : String) : Meets (Winds 0) (collectAsset key) := by
  rintro e n ⟨hopen, hdrains, htotal⟩
  have hpending : (collectAsset key e).1.spawner.numPendingEntries =
      e.spawner.numPendingEntries := by
    rw [← pendingEntries_length, ← pendingEntries_length]
    exact congrArg List.length (pendingEntries_touch e.spawner key collected_waiting)
  refine ⟨⟨⟨hopen.1.touch key collected_waiting, hopen.2⟩, hdrains, ?_⟩, ?_⟩
  · rw [Spawner.total, hpending]
    exact htotal
  · rw [Streaming.remaining, hpending]
    exact Nat.le_of_eq (Nat.zero_add _)

/-! ### Ticks -/

theorem compact_winds : Meets (Winds 0) (ofSpawner compact) := by
  intro e
  have hnone : (compact e.spawner).2 = [] := by
    unfold compact
    split <;> rfl
  exact (ofSpawner_winds (compact_handles e.spawner)
    (hnone ▸ fun _ hx => absurd hx List.not_mem_nil)
    (hnone ▸ fun _ hx => absurd hx List.not_mem_nil)).weaken (Nat.zero_le _)

theorem publishPending_winds : Meets (Winds 0) (ofSpawner publishPending) := fun e =>
  (ofSpawner_winds (publishPending_handles e.spawner) (fun _ hx => absurd hx List.not_mem_nil)
    (fun _ hx => absurd hx List.not_mem_nil)).weaken (Nat.zero_le _)

/-- **The loop of a tick** takes an entry, if the queue has one and the budget allows it. -/
theorem streamDrain_winds (turns : List StreamTurn) (e : Streaming) :
    Winds (!turns.isEmpty && decide (e.spawner.readyQueueHead < e.spawner.readyQueue.length)).toNat
      e (streamDrain turns e).2 (streamDrain turns e).1 := by
  have hdeliver : ∀ handle ans, Meets (Winds 0) (deliver handle ans) :=
    fun handle ans e => (deliver_winds handle ans e).weaken (Nat.zero_le _)
  have hdrain : ∀ turns, Meets (Winds 0) (streamDrain turns) :=
    streamDrain_meets winds_composable
      (fun _ _ ans hentry => (takeEntry_winds ans hentry).weaken (Nat.zero_le _)) hdeliver
  cases turns with
  | nil => exact winds_composable.refl e
  | cons turn turns =>
    cases hentry : e.spawner.readyQueue[e.spawner.readyQueueHead]? with
    | none =>
      have hend : ¬e.spawner.readyQueueHead < e.spawner.readyQueue.length :=
        Nat.not_lt.mpr (List.getElem?_eq_none_iff.mp hentry)
      simp only [streamDrain, hentry, decide_eq_false hend, Bool.and_false]
      exact winds_composable.refl e
    | some entry =>
      simp only [streamDrain, hentry]
      refine Winds.weaken ?_ (Bool.toNat_le _)
      exact (takeEntry_winds turn.answers hentry).trans
        (meets_seq winds_composable
          (meets_forEach winds_composable (fun d => hdeliver d.1 d.2) turn.deliveries)
          (hdrain turns) _)

/-- A drained generation is closed, with all its entries processed. -/
theorem finalizeIfDrained_ends {n : ℕ} (h : Winding n e) :
    (∃ x ∈ (ofSpawner finalizeIfDrained e).2, Ends n x) ∨
      (e.spawner.numPendingEntries ≠ 0 ∧ (ofSpawner finalizeIfDrained e).1 = e) := by
  by_cases hpending : e.spawner.numPendingEntries = 0
  · refine .inl ⟨.spawner (.finalized { e.spawner.stats with pendingCount := 0 } []), ?_, _, rfl,
      ?_⟩
    · simp only [ofSpawner, finalizeIfDrained, h.drains, hpending, and_self, if_true,
        finalizeGeneration, pendingEntries_eq_nil hpending]
      exact List.mem_singleton_self _
    · have htotal := h.total
      rw [Spawner.total, hpending] at htotal
      exact htotal
  · refine .inr ⟨hpending, ?_⟩
    simp only [ofSpawner, finalizeIfDrained, hpending, and_false, if_false]
    rfl

/-- **A tick** of a completed generation. -/
theorem streamTick_winds (world : Bool) (turns : List StreamTurn) {n : ℕ} (h : Winding n e) :
    (∃ x ∈ (streamTick world turns e).2, Ends n x) ∨
      (Winding n (streamTick world turns e).1 ∧
        (StreamEvent.advances e (.tick world turns)).toNat +
            (streamTick world turns e).1.remaining ≤ e.remaining) := by
  unfold streamTick
  rw [if_pos h.opened.2]
  by_cases hend : e.spawner.readyQueue.length ≤ e.spawner.readyQueueHead
  · rw [if_pos hend]
    rcases finalizeIfDrained_ends h with hends | ⟨hpending, hsame⟩
    · exact .inl hends
    · refine .inr ⟨by rwa [hsame], ?_⟩
      rw [hsame, StreamEvent.advances, decide_eq_false hpending,
        decide_eq_false (Nat.not_lt.mpr hend), Bool.and_false]
      exact Nat.le_of_eq (Nat.zero_add _)
  rw [if_neg hend]
  have hqueued : e.spawner.numPendingEntries ≠ 0 := by
    rw [Spawner.numPendingEntries]
    omega
  cases world with
  | false =>
    refine .inr ⟨h, ?_⟩
    simp [StreamEvent.advances, hqueued]
  | true =>
    have hadvances : StreamEvent.advances e (.tick true turns) =
        (!turns.isEmpty && decide (e.spawner.readyQueueHead < e.spawner.readyQueue.length)) := by
      rw [StreamEvent.advances, decide_eq_false hqueued, Bool.false_or, Bool.true_and]
    rw [if_pos rfl, hadvances, ofSpawner_seq, ofSpawner_seq]
    have hparts := (streamDrain_winds turns e).trans (compact_winds _)
    have hpublished := hparts.trans (publishPending_winds _)
    obtain ⟨hwinding, hspent⟩ := hpublished n h
    rcases finalizeIfDrained_ends hwinding with ⟨x, hx, hends⟩ | ⟨-, hsame⟩
    · exact .inl ⟨x, by simp only [seq]; simp [hx], hends⟩
    · refine .inr ?_
      simp only [seq] at hsame ⊢
      rw [hsame]
      exact ⟨hwinding, hspent⟩

/-- Another complete changes nothing. -/
theorem endGeneration_drained (completed : ℕ → Bool) {s : Spawner}
    (hactive : s.activeTransaction = true) (hdrains : s.finalizeWhenDrained = true) :
    endGeneration false completed s = finalizeIfDrained s := by
  rw [endGeneration, if_pos hactive, if_neg Bool.false_ne_true, finalizeIfDrained]
  by_cases hpending : s.numPendingEntries = 0
  · rw [if_pos hpending, if_pos ⟨hdrains, hpending⟩]
  · rw [if_neg hpending, if_neg fun h => hpending h.2, ← hdrains]

/-- **One event** of a completed generation: it ends it, or keeps it and, if it advances it, leaves
less to be done. -/
theorem event_winds {event : StreamEvent} (hwinds : event.winds = true) {n : ℕ} (h : Winding n e) :
    (∃ x ∈ (event.op e).2, Ends n x) ∨
      (Winding n (event.op e).1 ∧
        (event.advances e).toNat + (event.op e).1.remaining ≤ e.remaining) := by
  cases event with
  | begin | enqueue => cases hwinds
  | complete handle => exact .inr (completeLoad_winds handle e n h)
  | deliver handle ans => exact .inr (deliver_winds handle ans e n h)
  | collect key => exact .inr (collectAsset_winds key e n h)
  | tick world turns => exact streamTick_winds world turns h
  | finish discard =>
    obtain rfl : discard = false := by simpa [StreamEvent.winds] using hwinds
    have hfinish : (StreamEvent.finish false).op e = ofSpawner finalizeIfDrained e := by
      simp only [StreamEvent.op, streamFinish, ofSpawner,
        endGeneration_drained _ h.opened.2 h.drains]
    rw [hfinish]
    rcases finalizeIfDrained_ends h with hends | ⟨-, hsame⟩
    · exact .inl hends
    · rw [hsame]
      exact .inr ⟨h, Nat.le_of_eq (Nat.zero_add _)⟩

/-- **Something can be done**: the queue has an entry, or nothing is pending, or a load that entries
wait for is to complete or its callback to be delivered. -/
theorem exists_advancing (hT : Tracked e) : ∃ event : StreamEvent, event.winds = true ∧
    event.advances e = true := by
  by_cases hpending : e.spawner.numPendingEntries = 0
  · exact ⟨.tick true [], rfl, by simp [StreamEvent.advances, hpending]⟩
  by_cases hqueue : e.spawner.readyQueueHead < e.spawner.readyQueue.length
  · exact ⟨.tick true [⟨⟨none, false, false, false, false, false⟩, []⟩], rfl,
      by simp [StreamEvent.advances, hqueue]⟩
  -- what is pending waits for a load
  obtain ⟨entry, hentry⟩ : ∃ entry, entry ∈ e.spawner.waitingEntries := by
    have hlength := pendingEntries_length e.spawner
    rw [Spawner.pendingEntries, List.drop_eq_nil_of_le (Nat.not_lt.mp hqueue), List.nil_append]
      at hlength
    exact List.exists_mem_of_length_pos (by omega)
  obtain ⟨rt, hrt, hwaits⟩ := List.mem_flatMap.mp hentry
  obtain ⟨⟨key, _⟩, hmem, rfl⟩ := List.mem_map.mp hrt
  obtain ⟨-, load, hload, -⟩ := hT.expects (e.spawner.categories.find_of_mem hmem)
    (List.ne_nil_of_mem hwaits)
  cases hcompleted : load.completed with
  | false =>
    exact ⟨.complete load.handle, rfl, List.any_eq_true.mpr ⟨load, hload, by simp [hcompleted]⟩⟩
  | true =>
    exact ⟨.deliver load.handle ⟨none, none⟩, rfl,
      List.any_eq_true.mpr ⟨load, hload, by simp [hcompleted]⟩⟩

end Parts

/-- **A completed generation ends.**  In every reachable state in which a generation is open whose
complete has been handled, some event can advance it; and in every run from there in which no entry
comes in and nothing is started or cancelled, it has been closed once more events have advanced it
than remained to be done, with each of its entries spawned or skipped. -/
theorem generation_ends {events later : List StreamEvent} {e e' : Streaming}
    {past os : List StreamAction} (h : exec (toStep StreamEvent.op) .start events = some (e, past))
    (hactive : e.spawner.activeTransaction = true)
    (hcompleted : e.spawner.finalizeWhenDrained = true)
    (hlater : ∀ event ∈ later, event.winds = true)
    (hrun : exec (toStep StreamEvent.op) e later = some (e', os)) :
    (∃ event : StreamEvent, event.winds = true ∧ event.advances e = true) ∧
      (e.remaining < countSteps (toStep StreamEvent.op) (fun e event => event.advances e) e later →
        ∃ stats, .spawner (.finalized stats []) ∈ os ∧
          stats.spawnedCount + stats.skippedCount = e.spawner.total) := by
  obtain ⟨hI, hT, -⟩ := run_ordered h
  refine ⟨exists_advancing hT, fun hcount => ?_⟩
  have hstart : Winding e.spawner.total e := ⟨⟨hI, hactive⟩, hcompleted, rfl⟩
  have hbound := exec_potential (D := Ends e.spawner.total) (I := Winding e.spawner.total)
    (L := fun event => event.winds = true) (fun s event s' o hs hwinds hstep => by
      have hevent := event_winds hwinds hs
      rwa [Option.some.inj hstep] at hevent) hlater hstart hrun
  rcases hbound with ⟨_, hx, stats, rfl, hsum⟩ | ⟨-, hle⟩
  · exact ⟨stats, hx, hsum⟩
  · exact absurd (Nat.le_trans (Nat.le_add_right _ _) hle) (Nat.not_le.mpr hcount)

/-- The complete comes while a tree is queued and two ferns wait. -/
def heathCompleted : List StreamEvent := heathEvents ++ [.finish false]

def heathTick : StreamEvent := .tick true [⟨⟨none, true, true, true, true, true⟩, []⟩]

def heathLater : List StreamEvent :=
  [.complete 1, .deliver 1 ⟨some (.staticMesh 0), none⟩, heathTick, heathTick, heathTick, heathTick]

theorem generation_ends_heath :
    ∃ e past e' os stats,
      exec (toStep StreamEvent.op) .start heathCompleted = some (e, past) ∧
      exec (toStep StreamEvent.op) e heathLater = some (e', os) ∧ e.remaining = 5 ∧
      .spawner (.finalized stats []) ∈ os ∧ stats.spawnedCount + stats.skippedCount = 5 := by
  have hstate : (exec (toStep StreamEvent.op) .start heathCompleted).map (fun p =>
      ((p.1.spawner.activeTransaction, p.1.spawner.finalizeWhenDrained),
        (p.1.remaining, p.1.spawner.total),
        countSteps (toStep StreamEvent.op) (fun e event => event.advances e) p.1 heathLater)) =
      some ((true, true), (5, 5), 6) := by
    decide +kernel
  obtain ⟨⟨e, past⟩, h, hfields⟩ := Option.map_eq_some_iff.mp hstate
  simp only [Prod.mk.injEq] at hfields
  obtain ⟨⟨hactive, hcompleted⟩, ⟨hremaining, htotal⟩, hcount⟩ := hfields
  have hlater : ∀ event ∈ heathLater, event.winds = true := by decide
  obtain ⟨e', os, hrun⟩ := exec_toStep StreamEvent.op e heathLater
  obtain ⟨stats, hstats, hsum⟩ := (generation_ends h hactive hcompleted hlater hrun).2
    (by rw [hremaining, hcount]; decide)
  exact ⟨e, past, e', os, stats, h, hrun, hremaining, hstats, hsum.trans htotal⟩

end AetherForge.Plugin
