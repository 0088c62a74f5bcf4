import AetherForge.Plugin.Routing

/-!
# Draining a completed generation

When a generation is complete, the module forgets its id and the spawner drains its queue under the
time budget.  Until it is drained, only the start of another generation ends it early: then what is
still queued is dropped, and its transaction is closed before that of the new one is opened.

* `Attended` — every entry of a generation has been spawned, skipped by itself or is still queued;
* `Attends` — the calls that keep it so, and that close the generation only with nothing queued;
* `completed_drains` — from an accepted complete on, in every run without another start.
-/

namespace AetherForge.Plugin

open GoJson Operation StructJson Transition

/-! ### What becomes of the entries -/

def SpawnAction.receivedEntry : SpawnAction → Option AssetEntry
  | .received entry => some entry
  | _ => none

/-- The entry that has been spawned or skipped. -/
def SpawnAction.processedEntry : SpawnAction → Option AssetEntry
  | .spawned _ entry _ => some entry
  | .skipped entry _ => some entry
  | _ => none

def received (shown : List SpawnAction) : Multiset AssetEntry :=
  shown.filterMap SpawnAction.receivedEntry

def processed (shown : List SpawnAction) : Multiset AssetEntry :=
  shown.filterMap SpawnAction.processedEntry

/-- What is shown of a generation since it was opened. -/
def since (shown : List SpawnAction) : SpawnAction → List SpawnAction
  | .opened _ => []
  | a => shown ++ [a]

/-- What has been shown of the generation that was opened last. -/
def current (past : List ModuleAction) : List SpawnAction :=
  (past.filterMap ModuleAction.spawnerAction).foldl since []

/-- Every entry received has been spawned, skipped by itself or is queued. -/
structure Attended (shown : List SpawnAction) (queued : List AssetEntry) : Prop where
  kept : ∀ entry, .skipped entry .discarded ∉ shown
  unfinished : ∀ stats left, .finalized stats left ∉ shown
  all : received shown = processed shown + queued

/-- The generation is attended to, or was until it was finalized with nothing left. -/
def Drains (shown : List SpawnAction) (s : Spawner) : Prop :=
  (s.activeTransaction = true ∧ Attended shown s.pendingEntries) ∨
    (s.activeTransaction = false ∧
      ∃ attended stats, shown = attended ++ [.finalized stats []] ∧ Attended attended [])

theorem attended_nil : Attended [] [] :=
  ⟨fun _ => List.not_mem_nil, fun _ _ => List.not_mem_nil, rfl⟩

theorem received_append (shown o : List SpawnAction) :
    received (shown ++ o) = received shown + received o := by
  rw [received, List.filterMap_append, ← Multiset.coe_add]
  rfl

theorem processed_append (shown o : List SpawnAction) :
    processed (shown ++ o) = processed shown + processed o := by
  rw [processed, List.filterMap_append, ← Multiset.coe_add]
  rfl

section Calls

variable {s t : Spawner} {shown o : List SpawnAction}

/-- What is shown while entries come in keeps the generation open. -/
theorem enroll_intake {r : Roster} {b : Option Roster} {x : SpawnAction} (hx : x.Intake)
    (h : enroll (some r) x = some b) :
    ∃ r', b = some r' ∧ r.outstanding + received [x] = processed [x] + r'.outstanding := by
  rcases hx with ⟨entry, rfl⟩ | hprogress
  · cases h
    refine ⟨_, rfl, ?_⟩
    have hreceived : r.outstanding + {entry} = entry ::ₘ r.outstanding := by
      rw [add_comm, Multiset.singleton_add]
    exact hreceived.trans (zero_add _).symm
  · cases x with
    | opened | received | cancelled | finalized => exact absurd hprogress id
    | requested =>
      cases h
      exact ⟨r, rfl, add_comm _ _⟩
    | spawned generationId entry z =>
      simp only [enroll] at h
      split at h
      · rename_i hentry
        cases h
        refine ⟨_, rfl, ?_⟩
        exact (add_zero _).trans (Multiset.cons_erase hentry.2).symm
      · cases h
    | skipped entry why =>
      simp only [enroll] at h
      split at h
      · rename_i hentry
        cases h
        refine ⟨_, rfl, ?_⟩
        exact (add_zero _).trans (Multiset.cons_erase hentry).symm
      · cases h

/-- **The entries of an open generation**: those outstanding before and those received are those
processed and those outstanding after. -/
theorem follow_intake {r r' : Roster} (ho : ∀ x ∈ o, x.Intake)
    (h : follow enroll (some r) o = some (some r')) :
    r.outstanding + received o = processed o + r'.outstanding := by
  induction o generalizing r with
  | nil =>
    cases h
    exact add_comm _ _
  | cons x o ih =>
    obtain ⟨b, hx, hrest⟩ := Option.bind_eq_some_iff.mp h
    obtain ⟨r₁, rfl, hstep⟩ := enroll_intake (ho x List.mem_cons_self) hx
    have hlater := ih (fun y hy => ho y (.tail _ hy)) hrest
    rw [← List.singleton_append, received_append, processed_append, ← add_assoc, hstep, add_assoc,
      hlater, add_assoc]

/-- What is not shown while entries come in. -/
theorem intake_excludes {x : SpawnAction} (h : x.Intake) :
    (∀ entry, x ≠ .skipped entry .discarded) ∧ (∀ stats left, x ≠ .finalized stats left) ∧
      ∀ generationId, x ≠ .opened generationId := by
  rcases h with ⟨entry, rfl⟩ | hprogress
  · exact ⟨nofun, nofun, nofun⟩
  · refine ⟨?_, ?_, ?_⟩
    · rintro entry rfl
      exact hprogress rfl
    · rintro stats left rfl
      exact hprogress
    · rintro generationId rfl
      exact hprogress

/-- A step that handles what it receives attends to it. -/
theorem Handles.attended (h : Handles 0 s o t) (hs : Open s) (ho : ∀ x ∈ o, x.Intake)
    (hshown : Attended shown s.pendingEntries) : Attended (shown ++ o) t.pendingEntries := by
  obtain ⟨-, -, hroster⟩ := h hs
  have hflow := follow_intake ho (hroster 0)
  simp only [Spawner.inFlightRoster, add_zero] at hflow
  refine ⟨fun entry hmem => ?_, fun stats left hmem => ?_, ?_⟩
  · rcases List.mem_append.mp hmem with hmem | hmem
    · exact hshown.kept entry hmem
    · exact (intake_excludes (ho _ hmem)).1 entry rfl
  · rcases List.mem_append.mp hmem with hmem | hmem
    · exact hshown.unfinished stats left hmem
    · exact (intake_excludes (ho _ hmem)).2.1 stats left rfl
  · rw [received_append, processed_append, hshown.all, add_assoc, hflow, add_assoc]

/-- The call leaves a closed spawner alone, opens nothing, and attends to an open generation. -/
structure Attends (f : SpawnOp) : Prop where
  idle : ∀ s, Consistent s → s.activeTransaction = false → f s = (s, [])
  opened : ∀ s generationId, .opened generationId ∉ (f s).2
  drains : ∀ s shown, Open s → Attended shown s.pendingEntries →
    Drains (shown ++ (f s).2) (f s).1

/-- A generation with nothing queued is closed. -/
theorem finalizeGeneration_drains (hpending : s.numPendingEntries = 0)
    (hshown : Attended shown s.pendingEntries) :
    Drains (shown ++ (finalizeGeneration s).2) (finalizeGeneration s).1 := by
  have hnone := pendingEntries_eq_nil hpending
  rw [hnone] at hshown
  refine .inr ⟨rfl, shown, { s.stats with pendingCount := 0 }, ?_, hshown⟩
  rw [finalizeGeneration, hnone]

theorem finalizeIfDrained_drains (hs : Open s) (hshown : Attended shown s.pendingEntries) :
    Drains (shown ++ (finalizeIfDrained s).2) (finalizeIfDrained s).1 := by
  unfold finalizeIfDrained
  split
  · rename_i h
    exact finalizeGeneration_drains h.2 hshown
  · rw [List.append_nil]
    exact .inl ⟨hs.2, hshown⟩

theorem loaded_attends (key : String) (ans : LoadAnswers) :
    Attends (onCategoryAssetLoaded key ans) := by
  refine ⟨fun s hI ha => loaded_closed key ans hI ha, fun s generationId hmem => ?_,
    fun s shown hs hshown => ?_⟩
  · exact loaded_progresses key ans s _ hmem
  · have hhandles := loaded_handles key ans s
    refine .inl ⟨(hhandles hs).1.2, hhandles.attended hs (fun x hx => ?_) hshown⟩
    exact .inr (loaded_progresses key ans s x hx)

theorem enqueueEntries_attends (entries : List (AssetEntry × RequestAnswers)) :
    Attends (enqueueEntries entries) := by
  have hintake := enqueueEntries_takes entries
  refine ⟨fun s _ ha => ?_, fun s generationId hmem => ?_, fun s shown hs hshown => ?_⟩
  · simp only [enqueueEntries, ha, Bool.false_eq_true, if_false]
  · exact (intake_excludes (hintake s _ hmem)).2.2 generationId rfl
  · have hhandles := receiveEntries_handles entries s
    have heq : enqueueEntries entries s = seq (forEach receiveEntry entries) publishPending s :=
      if_pos hs.2
    have hshows := hintake s
    rw [heq] at hshows ⊢
    exact .inl ⟨(hhandles hs).1.2, hhandles.attended hs hshows hshown⟩

theorem spawnTick_attends (world : Bool) (turns : List Turn) : Attends (spawnTick world turns) := by
  refine ⟨fun s _ ha => ?_, fun s generationId hmem => ?_, fun s shown hs hshown => ?_⟩
  · simp only [spawnTick, ha, Bool.false_eq_true, if_false]
  · exact (spawnTick_orderly world turns s _ hmem).within
  · have hstays : Drains (shown ++ []) s := by
      rw [List.append_nil]
      exact .inl ⟨hs.2, hshown⟩
    unfold spawnTick
    rw [if_pos hs.2]
    split
    · exact finalizeIfDrained_drains hs hshown
    · split
      · have hdrained := drained_handles turns s
        have hprogress : ∀ x ∈ (seq (drain turns) (seq compact publishPending) s).2, x.Intake := by
          intro x hx
          simp only [seq, compact, publishPending, List.append_nil] at hx
          exact .inr (drain_progresses turns s x hx)
        have hlast := finalizeIfDrained_drains (hdrained hs).1
          (hdrained.attended hs hprogress hshown)
        simp only [seq, List.append_assoc] at hlast ⊢
        exact hlast
      · exact hstays

/-- `EndGeneration(false)` drops nothing. -/
theorem endGeneration_attends (completed : ℕ → Bool) :
    Attends (endGeneration false completed) := by
  refine ⟨fun s _ ha => ?_, fun s generationId hmem => ?_, fun s shown hs hshown => ?_⟩
  · simp only [endGeneration, ha, Bool.false_eq_true, if_false]
  · exact endGeneration_within false completed s _ hmem
  · simp only [endGeneration, hs.2, if_true, Bool.false_eq_true, if_false]
    split
    · exact finalizeGeneration_drains ‹_› hshown
    · rw [List.append_nil]
      exact .inl ⟨rfl, hshown⟩

end Calls

/-! ### While the module holds an id -/

/-- An open generation is attended to. -/
def Tended (past : List ModuleAction) (m : EditorModule) : Prop :=
  Consistent m.spawner ∧ (m.spawner.activeTransaction = true →
    Attended (current past) m.spawner.pendingEntries)

/-- What is shown leaves an open generation attended to. -/
def Tends (m : EditorModule) (o : List ModuleAction) (m' : EditorModule) : Prop :=
  ∀ past, Tended past m → Tended (past ++ o) m'

theorem tends_composable : Composable Tends := by
  constructor
  · intro m past hm
    rwa [List.append_nil]
  · intro m o m' o' m'' h h' past hm
    rw [← List.append_assoc]
    exact h' _ (h past hm)

theorem tended_start : Tended [] .start := ⟨consistent_start, nofun⟩

theorem foldl_since {o : List SpawnAction} (ho : ∀ generationId, .opened generationId ∉ o)
    (shown : List SpawnAction) : o.foldl since shown = shown ++ o := by
  induction o generalizing shown with
  | nil => exact (List.append_nil shown).symm
  | cons x o ih =>
    have hx : since shown x = shown ++ [x] := by
      cases x with
      | opened generationId => exact absurd List.mem_cons_self (ho generationId)
      | received | requested | spawned | skipped | cancelled | finalized => rfl
    rw [List.foldl_cons, hx, ih fun generationId hmem => ho generationId (.tail _ hmem),
      List.append_assoc, List.singleton_append]

theorem current_append (past o : List ModuleAction) :
    current (past ++ o) = (o.filterMap ModuleAction.spawnerAction).foldl since (current past) := by
  rw [current, List.filterMap_append, List.foldl_append]
  rfl

theorem spawnerActions_map (chunk : Option String) (o : List SpawnAction) :
    (o.map (ModuleAction.spawner chunk)).filterMap ModuleAction.spawnerAction = o := by
  rw [List.filterMap_map]
  exact List.filterMap_some

section Events

variable {m : EditorModule}

theorem setActiveGenerationId_tends (generationId : String) :
    Meets Tends (setActiveGenerationId generationId) := by
  intro m past hm
  rw [setActiveGenerationId, List.append_nil]
  exact hm

/-- What is sent is not shown of a generation. -/
theorem tends_sent {o : List ModuleAction} (ho : o.filterMap ModuleAction.spawnerAction = []) :
    Tends m o m := by
  intro past hm
  rw [Tended, current_append, ho]
  exact hm

theorem onSpawner_tends (chunk : Option String) {f : SpawnOp} (hf : Enrolls f) (ha : Attends f) :
    Meets Tends (onSpawner chunk f) := by
  intro m past hm
  obtain ⟨hI, hshown⟩ := hm
  refine ⟨(hf m.spawner hI).1, fun hopen => ?_⟩
  rw [current_append, onSpawner, spawnerActions_map, foldl_since (ha.opened m.spawner)]
  rcases Bool.eq_false_or_eq_true m.spawner.activeTransaction with hactive | hactive
  · rcases ha.drains m.spawner _ ⟨hI, hactive⟩ (hshown hactive) with ⟨-, hdrained⟩ | ⟨hclosed, -⟩
    · exact hdrained
    · exact absurd (hopen.symm.trans hclosed) (by simp)
  · have hidle := congrArg (fun p => p.1.activeTransaction) (ha.idle m.spawner hI hactive)
    exact absurd (hopen.symm.trans (hidle.trans hactive)) (by simp)

theorem endActive_tends (discard : Bool) (completed : ℕ → Bool) :
    Meets Tends (endActive discard completed) := by
  refine meets_seq tends_composable ?_ (setActiveGenerationId_tends "")
  cases discard with
  | false =>
    exact onSpawner_tends none (endGeneration_enrolls false completed)
      (endGeneration_attends completed)
  | true =>
    rintro m past ⟨hI, -⟩
    refine ⟨(endGeneration_enrolls true completed m.spawner hI).1, fun hopen => ?_⟩
    exact absurd (hopen.symm.trans (endGeneration_closes completed m.spawner)) (by simp)

theorem beginGeneration_tends (generationId : String)
    (manifest : Option (TMap ManifestAssetEntry)) (completed : ℕ → Bool) :
    Meets Tends (onSpawner none (beginGeneration generationId manifest completed)) := by
  rintro m past ⟨hI, -⟩
  refine ⟨(beginGeneration_enrolls generationId manifest completed m.spawner hI).1, fun _ => ?_⟩
  have hnone := pendingEntries_eq_nil
    (openGeneration_pending generationId manifest (endGeneration true completed m.spawner).1)
  have hcurrent : current (past ++
      (onSpawner none (beginGeneration generationId manifest completed) m).2) = [] := by
    rw [current_append, onSpawner, spawnerActions_map, beginGeneration, seq, List.foldl_append]
    rfl
  rw [hcurrent]
  exact hnone.symm ▸ attended_nil

theorem startGeneration_tends (prompt : String) (seed : Option ℤ) (areaMeters : ℚ)
    (ans : StartAnswers) : Meets Tends (startGeneration prompt seed areaMeters ans) := by
  unfold startGeneration
  split
  · refine meets_seq tends_composable (setActiveGenerationId_tends _)
      (meets_seq tends_composable (beginGeneration_tends _ _ _) ?_)
    intro m
    unfold sendGenerate
    split <;> exact tends_sent rfl
  · exact meets_skip tends_composable

theorem cancelActiveGeneration_tends (connected : Bool) (completed : ℕ → Bool) :
    Meets Tends (cancelActiveGeneration connected completed) := by
  intro m
  unfold cancelActiveGeneration
  split
  · exact tends_composable.refl m
  · refine meets_seq tends_composable ?_ (endActive_tends true completed) m
    intro m
    unfold sendCancel
    split <;> exact tends_sent rfl

theorem handleMessage_tends (requests : ℕ → RequestAnswers) (completed : ℕ → Bool)
    (message : ServerMessage) : Meets Tends (handleMessage requests completed message) := by
  intro m
  cases message with
  | plan | invalid => exact tends_composable.refl m
  | chunk chunk =>
    simp only [handleMessage, handleChunk]
    split
    · exact onSpawner_tends _ (enqueueEntries_enrolls _) (enqueueEntries_attends _) m
    · exact tends_composable.refl m
  | complete complete =>
    simp only [handleMessage, handleComplete]
    split
    · exact endActive_tends false completed m
    · exact tends_composable.refl m
  | error error =>
    simp only [handleMessage, handleServerError]
    split
    · exact endActive_tends true completed m
    · exact tends_composable.refl m

/-- **Every event** leaves an open generation attended to. -/
theorem op_tends (E : Engine) (event : ModuleEvent) : Meets Tends (event.op E) := by
  cases event with
  | start prompt seed areaMeters ans => exact startGeneration_tends prompt seed areaMeters ans
  | cancel connected completed => exact cancelActiveGeneration_tends connected completed
  | frame data requests completed => exact handleMessage_tends requests completed _
  | closed completed =>
    intro m
    simp only [ModuleEvent.op, handleClosed]
    split
    · exact endActive_tends true completed m
    · exact tends_composable.refl m
  | loaded key ans => exact onSpawner_tends none (loaded_enrolls key ans) (loaded_attends key ans)
  | tick world turns =>
    exact onSpawner_tends none (spawnTick_enrolls world turns) (spawnTick_attends world turns)

end Events

/-! ### After a complete -/

/-- Whether a generation is started on a connected client. -/
def ModuleEvent.starts : ModuleEvent → Bool
  | .start _ _ _ ans => ans.connected
  | _ => false

/-- The module has let the generation go, and the spawner drains it. -/
def Draining (shown : List SpawnAction) (m : EditorModule) : Prop :=
  m.activeGenerationId = "" ∧ Consistent m.spawner ∧ Drains shown m.spawner

/-- What is shown goes on with the generation that is drained. -/
def GoesOn (shown : List SpawnAction) (o : List ModuleAction) (m : EditorModule) : Prop :=
  Draining (shown ++ o.filterMap ModuleAction.spawnerAction) m ∧ ∀ x ∈ o, x.isOpened = false

section Completed

variable {m : EditorModule} {shown : List SpawnAction}

theorem Draining.goesOn (h : Draining shown m) : GoesOn shown [] m := by
  refine ⟨?_, fun x hx => absurd hx List.not_mem_nil⟩
  rw [List.filterMap_nil, List.append_nil]
  exact h

theorem not_opened {chunk : Option String} {o : List SpawnAction}
    (ho : ∀ generationId, .opened generationId ∉ o) :
    ∀ x ∈ o.map (ModuleAction.spawner chunk), x.isOpened = false := by
  intro x hx
  obtain ⟨a, ha, rfl⟩ := List.mem_map.mp hx
  cases a with
  | opened generationId => exact absurd ha (ho generationId)
  | received | requested | spawned | skipped | cancelled | finalized => rfl

/-- A call of the spawner goes on with the generation. -/
theorem onSpawner_goesOn (chunk : Option String) {f : SpawnOp} (hf : Enrolls f) (ha : Attends f)
    (hid : m.activeGenerationId = "") (hI : Consistent m.spawner)
    (hshown : Drains shown m.spawner) :
    GoesOn shown (onSpawner chunk f m).2 (onSpawner chunk f m).1 := by
  refine ⟨⟨hid, (hf m.spawner hI).1, ?_⟩, not_opened (ha.opened m.spawner)⟩
  rw [onSpawner, spawnerActions_map]
  rcases hshown with ⟨hactive, hattended⟩ | ⟨hclosed, hdone⟩
  · exact ha.drains m.spawner shown ⟨hI, hactive⟩ hattended
  · rw [ha.idle m.spawner hI hclosed, List.append_nil]
    exact .inr ⟨hclosed, hdone⟩

/-- No frame reaches a handler that does something, without an id in the module. -/
theorem handleMessage_idle {message : ServerMessage} (hnames : message.NamesGeneration)
    (requests : ℕ → RequestAnswers) (completed : ℕ → Bool) (hid : m.activeGenerationId = "") :
    handleMessage requests completed message m = (m, []) := by
  have hother : ∀ {generationId}, generationId ≠ "" →
      ¬sameId generationId m.activeGenerationId := by
    intro generationId hne hsame
    rw [hid] at hsame
    exact hne (eq_empty_of_sameId hsame)
  cases message with
  | plan | invalid => rfl
  | chunk chunk => exact if_neg (hother hnames)
  | complete complete => exact if_neg (hother hnames)
  | error error => exact if_neg fun h => h.1 hid

/-- **Every event but the start of another generation** goes on with the one that is drained. -/
theorem op_goesOn (E : Engine) {event : ModuleEvent} (hstarts : event.starts = false)
    (h : Draining shown m) : GoesOn shown (event.op E m).2 (event.op E m).1 := by
  obtain ⟨hid, hI, hshown⟩ := h
  have hidle : event.op E m = (m, []) → GoesOn shown (event.op E m).2 (event.op E m).1 := by
    intro heq
    rw [heq]
    exact Draining.goesOn ⟨hid, hI, hshown⟩
  cases event with
  | start prompt seed areaMeters ans =>
    apply hidle
    simp only [ModuleEvent.starts] at hstarts
    simp only [ModuleEvent.op, startGeneration, hstarts, Bool.false_eq_true, if_false]
    rfl
  | cancel connected completed => exact hidle (if_pos hid)
  | frame data requests completed =>
    exact hidle (handleMessage_idle (parseServerMessage_names E data) requests completed hid)
  | closed completed => exact hidle (if_neg fun h => h hid)
  | loaded key ans =>
    exact onSpawner_goesOn none (loaded_enrolls key ans) (loaded_attends key ans) hid hI hshown
  | tick world turns =>
    exact onSpawner_goesOn none (spawnTick_enrolls world turns) (spawnTick_attends world turns) hid
      hI hshown

/-- **A run without another start** goes on with the generation that is drained. -/
theorem run_goesOn {E : Engine} {later : List ModuleEvent} {m' : EditorModule}
    {os : List ModuleAction} (hlater : ∀ event ∈ later, event.starts = false)
    (h : Draining shown m) (hrun : exec (toStep (ModuleEvent.op E)) m later = some (m', os)) :
    GoesOn shown os m' := by
  have hsteps : Along (toStep (ModuleEvent.op E)) (fun _ event => event.starts = false) m later :=
    along_of_forall (fun event hevent _ => hlater event hevent) m
  rw [← exec_guarded hsteps] at hrun
  have hrule : GoesOn shown ([] ++ os) m' := by
    refine exec_history (J := GoesOn shown) ?_ h.goesOn hrun
    rintro past m event m' o ⟨hm, hpast⟩ hstep
    obtain ⟨hstarts, hop⟩ := guarded_some.mp hstep
    obtain ⟨hnext, ho⟩ := op_goesOn E hstarts hm
    rw [Option.some.inj hop] at hnext ho
    refine ⟨?_, List.forall_mem_append.mpr ⟨hpast, ho⟩⟩
    rw [List.filterMap_append, ← List.append_assoc]
    exact hnext
  exact hrule

/-- What the spawner shows when a generation takes the place of an open one: what is queued is
dropped, and the old transaction is closed before the new one is opened. -/
def Replaces (s : Spawner) (generationId : String) (o : List SpawnAction) : Prop :=
  ∃ (handles : List ℕ) (stats : SpawnStats), o = s.pendingEntries.map (.skipped · .discarded) ++
    handles.map .cancelled ++ [.finalized stats [], .opened generationId]

theorem beginGeneration_replaces {s : Spawner} (generationId : String)
    (manifest : Option (TMap ManifestAssetEntry)) (completed : ℕ → Bool)
    (hactive : s.activeTransaction = true) :
    Replaces s generationId (beginGeneration generationId manifest completed s).2 := by
  have hnone := pendingEntries_eq_nil (discardPending_pending completed s)
  have hended : (endGeneration true completed s).2 = (discardPending completed s).2 ++
      [.finalized { (discardPending completed s).1.stats with pendingCount := 0 } []] := by
    rw [endGeneration, if_pos hactive, if_pos rfl, seq, finalizeGeneration, hnone]
  rw [beginGeneration, seq, hended, discardPending]
  exact ⟨_, _, List.append_assoc _ _ _⟩

theorem startGeneration_replaces (prompt : String) (seed : Option ℤ) (areaMeters : ℚ)
    {ans : StartAnswers} (hconnected : ans.connected = true)
    (hactive : m.spawner.activeTransaction = true) :
    Replaces m.spawner ans.generationId
      ((startGeneration prompt seed areaMeters ans m).2.filterMap ModuleAction.spawnerAction) := by
  have hsent : ∀ m' : EditorModule, (sendGenerate ans.generationId prompt seed
      (boundsForArea areaMeters) ans.sends m').2.filterMap ModuleAction.spawnerAction = [] := by
    intro m'
    unfold sendGenerate
    split <;> rfl
  rw [startGeneration, if_pos hconnected, seq, seq, setActiveGenerationId, List.nil_append,
    List.filterMap_append, hsent, List.append_nil, onSpawner, spawnerActions_map]
  exact beginGeneration_replaces _ _ _ hactive

end Completed

/-! ### Runs -/

/-- **A completed generation is drained.**  Once `HandleComplete` has accepted the complete of a
generation, and in every run from there in which no other generation is started on a connected
client:

* the open transaction is that of the generation, and no other is opened;
* nothing has been discarded of what was received for the generation, and each entry has been
  spawned, skipped by itself or is still queued; the transaction is closed only after all entries
  have been processed;
* a start on a connected client while it is open discards what is still queued, and closes it. -/
theorem completed_drains {E : Engine} {events later : List ModuleEvent} {m₁ m : EditorModule}
    {past os : List ModuleAction} {data : Bytes} {requests : ℕ → RequestAnswers}
    {completed : ℕ → Bool} {complete : CompleteMessage}
    (h : exec (toStep (ModuleEvent.op E)) .start events = some (m₁, past))
    (hparse : parseServerMessage E data = .complete complete)
    (haccepted : sameId complete.generationId m₁.activeGenerationId)
    (hlater : ∀ event ∈ later, event.starts = false)
    (hrun : exec (toStep (ModuleEvent.op E)) m₁ (.frame data requests completed :: later) =
      some (m, os)) :
    (∃ generationId, openAfter past = some generationId ∧
      sameId complete.generationId generationId) ∧
    (∀ x ∈ os, x.isOpened = false) ∧
    Drains (current (past ++ os)) m.spawner ∧
    ∀ prompt seed areaMeters ans, ans.connected = true → m.spawner.activeTransaction = true →
      Replaces m.spawner ans.generationId
        ((startGeneration prompt seed areaMeters ans m).2.filterMap
          ModuleAction.spawnerAction) := by
  obtain ⟨hrouted, hroster⟩ := exec_meets routes_composable (op_routes E) h routed_start
  obtain ⟨hI, hattended⟩ := exec_meets tends_composable (op_tends E) h [] tended_start
  -- the complete names the generation that is open
  have hnames := parseServerMessage_names E data
  rw [hparse] at hnames
  have hheld : m₁.activeGenerationId ≠ "" := by
    intro hempty
    rw [hempty] at haccepted
    exact hnames (eq_empty_of_sameId haccepted)
  obtain ⟨hactive, hsame, -⟩ := hrouted.held hheld
  have hopen : openAfter past = some m₁.activeGenerationId := by
    rw [(follow_outstanding hroster).1, EditorModule.roster, Spawner.roster, if_pos hactive,
      ← hsame]
    rfl
  -- it is let go, and then drained
  obtain ⟨m₂, o, os', hstep, hrest, rfl⟩ := exec_cons_inv hrun
  have hdraining : GoesOn (current past) o m₂ := by
    have hop : endActive false completed m₁ = (m₂, o) := by
      have hframe := Option.some.inj hstep
      simp only [ModuleEvent.op, hparse, handleMessage, handleComplete, if_pos haccepted] at hframe
      exact hframe
    have hends := endGeneration_attends completed
    have hdrains := hends.drains m₁.spawner _ ⟨hI, hactive⟩ (hattended hactive)
    simp only [endActive, seq, onSpawner, setActiveGenerationId, List.append_nil] at hop
    cases hop
    refine ⟨⟨rfl, (endGeneration_enrolls false completed m₁.spawner hI).1, ?_⟩,
      not_opened (hends.opened m₁.spawner)⟩
    rw [spawnerActions_map]
    exact hdrains
  obtain ⟨hstart, ho⟩ := hdraining
  obtain ⟨⟨-, -, hdrains⟩, hos'⟩ := run_goesOn hlater hstart hrest
  have hos : ∀ x ∈ o ++ os', x.isOpened = false := List.forall_mem_append.mpr ⟨ho, hos'⟩
  refine ⟨⟨_, hopen, haccepted⟩, hos, ?_, fun prompt seed areaMeters ans hconnected ha =>
    startGeneration_replaces prompt seed areaMeters hconnected ha⟩
  rw [current_append, foldl_since]
  · rw [List.filterMap_append, ← List.append_assoc]
    exact hdrains
  · intro generationId hmem
    obtain ⟨x, hx, hopened⟩ := List.mem_filterMap.mp hmem
    have hnot := hos x hx
    rw [ModuleAction.isOpened, hopened] at hnot
    cases hnot

/-- What a complete names. -/
def ServerMessage.completes (generationId : String) : ServerMessage → Bool
  | .complete m => sameId m.generationId generationId
  | _ => false

theorem exists_complete {message : ServerMessage} {generationId : String}
    (h : message.completes generationId = true) :
    ∃ complete, message = .complete complete ∧ sameId complete.generationId generationId := by
  cases message with
  | complete m => exact ⟨m, rfl, of_decide_eq_true h⟩
  | plan | chunk | error | invalid => cases h

theorem completeFrame_parsed :
    ∃ complete, parseServerMessage plainEngine (completeFrame "gen-0000aaaa") = .complete complete ∧
      sameId complete.generationId "gen-0000aaaa" := by
  apply exists_complete
  decide +kernel

/-- Two trees are received, and one of them has been loaded. -/
def groveEvents : List ModuleEvent :=
  [.start "a grove" none 70 (woodStart "0000AAAA1111"),
    .frame (treeFrame "gen-0000aaaa") (fun _ => loadLater) fun _ => true,
    .frame (treeFrame "gen-0000aaaa") (fun _ => loadLater) fun _ => true,
    .loaded "tree" ⟨some (.staticMesh 0), none⟩]

theorem groveEvents_id {m : EditorModule} {past : List ModuleAction}
    (h : exec (toStep (ModuleEvent.op plainEngine)) .start groveEvents = some (m, past)) :
    m.activeGenerationId = "gen-0000aaaa" := by
  have hid : (exec (toStep (ModuleEvent.op plainEngine)) .start groveEvents).map (fun p =>
      p.1.activeGenerationId) = some "gen-0000aaaa" := by decide +kernel
  rwa [h, Option.map_some, Option.some.injEq] at hid

def groveComplete : ModuleEvent :=
  .frame (completeFrame "gen-0000aaaa") (fun _ => loadLater) fun _ => true

def groveLater : List ModuleEvent := [treeTick, .closed fun _ => true]

def secondStart : ModuleEvent := .start "a wood" none 70 (woodStart "0000BBBB1111")

theorem completed_drains_grove :
    ∃ m₁ past m os,
      exec (toStep (ModuleEvent.op plainEngine)) .start groveEvents = some (m₁, past) ∧
      exec (toStep (ModuleEvent.op plainEngine)) m₁ (groveComplete :: groveLater) = some (m, os) ∧
      m.spawner.activeTransaction = true ∧ m.spawner.numPendingEntries = 1 ∧
      Attended (current (past ++ os)) m.spawner.pendingEntries := by
  obtain ⟨m₁, past, h⟩ := exec_toStep (ModuleEvent.op plainEngine) .start groveEvents
  obtain ⟨m, os, hrun⟩ := exec_toStep (ModuleEvent.op plainEngine) m₁ (groveComplete :: groveLater)
  have hstate : (exec (toStep (ModuleEvent.op plainEngine)) .start
      (groveEvents ++ groveComplete :: groveLater)).map (fun p =>
      (p.1.spawner.activeTransaction, p.1.spawner.numPendingEntries)) = some (true, 1) := by
    decide +kernel
  rw [exec_trans h hrun, Option.map_some, Option.some.injEq, Prod.mk.injEq] at hstate
  obtain ⟨complete, hparse, hsame⟩ := completeFrame_parsed
  rw [← groveEvents_id h] at hsame
  have hlater : ∀ event ∈ groveLater, event.starts = false := by decide
  obtain ⟨-, -, hdrains, -⟩ := completed_drains h hparse hsame hlater hrun
  refine ⟨m₁, past, m, os, h, hrun, hstate.1, hstate.2, ?_⟩
  rcases hdrains with ⟨-, hattended⟩ | ⟨hclosed, -⟩
  · exact hattended
  · exact absurd (hstate.1.symm.trans hclosed) (by simp)

def SpawnAction.discardedEntry : SpawnAction → Option AssetEntry
  | .skipped entry .discarded => some entry
  | _ => none

theorem eq_of_discardedEntry {a : SpawnAction} {entry : AssetEntry}
    (h : a.discardedEntry = some entry) : a = .skipped entry .discarded := by
  unfold SpawnAction.discardedEntry at h
  split at h
  · cases h
    rfl
  · cases h

def defaultTree : AssetEntry := { AssetEntry.default with category := "tree" }

/-- **Another start truncates a completed generation**: a tree that was received for it is dropped
after its complete has been accepted. -/
theorem second_start_discards :
    ∃ m₁ past complete m os,
      exec (toStep (ModuleEvent.op plainEngine)) .start groveEvents = some (m₁, past) ∧
      defaultTree ∈ received (current past) ∧
      parseServerMessage plainEngine (completeFrame "gen-0000aaaa") = .complete complete ∧
      sameId complete.generationId m₁.activeGenerationId ∧
      exec (toStep (ModuleEvent.op plainEngine)) m₁ [groveComplete, secondStart] = some (m, os) ∧
      .skipped defaultTree .discarded ∈ os.filterMap ModuleAction.spawnerAction := by
  obtain ⟨m₁, past, h⟩ := exec_toStep (ModuleEvent.op plainEngine) .start groveEvents
  obtain ⟨m, os, hrun⟩ := exec_toStep (ModuleEvent.op plainEngine) m₁ [groveComplete, secondStart]
  have hstate : (exec (toStep (ModuleEvent.op plainEngine)) .start groveEvents).bind (fun p =>
      (exec (toStep (ModuleEvent.op plainEngine)) p.1 [groveComplete, secondStart]).map fun q =>
        (decide (defaultTree ∈ received (current p.2)),
          (q.2.filterMap ModuleAction.spawnerAction).filterMap SpawnAction.discardedEntry)) =
      some (true, [defaultTree, defaultTree]) := by decide +kernel
  rw [h, Option.bind_some, hrun, Option.map_some, Option.some.injEq, Prod.mk.injEq,
    decide_eq_true_eq] at hstate
  obtain ⟨hreceived, hlater⟩ := hstate
  obtain ⟨complete, hparse, hsame⟩ := completeFrame_parsed
  rw [← groveEvents_id h] at hsame
  have hmem : defaultTree ∈ (os.filterMap ModuleAction.spawnerAction).filterMap
      SpawnAction.discardedEntry := by
    rw [hlater]
    exact List.mem_cons_self
  obtain ⟨a, ha, hdiscarded⟩ := List.mem_filterMap.mp hmem
  rw [eq_of_discardedEntry hdiscarded] at ha
  exact ⟨m₁, past, complete, m, os, h, hreceived, hparse, hsame, hrun, ha⟩

end AetherForge.Plugin
