import AetherForge.Plugin.CodecAgreement
import AetherForge.Plugin.Conservation
import AetherForge.Plugin.Module

/-!
# Routing of generations

The module and its spawner each have an idea of the current generation.  While the module holds an
id, the spawner has that generation open; a generation that the module has let go of, and that is
still open, is to be finalized when drained.  So an entry is received only while the generation that
its chunk names is open, and spawned or skipped before that one is closed.

* `Routed` — the invariant between the two;
* `route` — the roster, which accepts an entry only from a chunk that names the open generation;
* `op_routes` — every event keeps the invariant and drives the roster;
* `generations_routed` — what this says of whole runs.
-/

namespace AetherForge.Plugin

open GoJson Operation StructJson Transition

/-! ### The roster of the module -/

/-- Whether a chunk is handled that names the open generation. -/
def named (chunk : Option String) (b : Option Roster) : Bool :=
  b.any fun r => chunk.any fun generationId => sameId generationId r.generationId

theorem exists_of_named {chunk : Option String} {b : Option Roster} (h : named chunk b = true) :
    ∃ r generationId, b = some r ∧ chunk = some generationId ∧
      sameId generationId r.generationId := by
  obtain ⟨r, hb, hr⟩ := (Option.any_eq_true _ _).mp h
  obtain ⟨generationId, hchunk, hid⟩ := (Option.any_eq_true _ _).mp hr
  exact ⟨r, generationId, hb, hchunk, of_decide_eq_true hid⟩

/-- What the roster accepts of the module: entries are received only from a chunk that names the
open generation. -/
def route (b : Option Roster) : ModuleAction → Option (Option Roster)
  | .spawner chunk (.received entry) =>
    if named chunk b then enroll b (.received entry) else none
  | .spawner _ a => enroll b a
  | .sentGenerate _ _ _ _ => some b
  | .sentCancel _ => some b

/-- The roster of the spawner. -/
def EditorModule.roster (m : EditorModule) : Option Roster := m.spawner.roster

/-- The invariant: the spawner has the generation open whose id the module holds, and finalizes
one that the module has let go of when it is drained. -/
structure Routed (m : EditorModule) : Prop where
  consistent : Consistent m.spawner
  held : m.activeGenerationId ≠ "" → m.spawner.activeTransaction = true ∧
    m.spawner.activeGenerationId = m.activeGenerationId ∧ m.spawner.finalizeWhenDrained = false
  draining : m.spawner.activeTransaction = true → m.activeGenerationId = "" →
    m.spawner.finalizeWhenDrained = true

/-- The operation keeps the invariant and drives the roster. -/
abbrev Routes (f : ModuleOp) : Prop := Meets (Follows route Routed EditorModule.roster) f

theorem routes_composable : Composable (Follows route Routed EditorModule.roster) :=
  follows_composable _ _ _

theorem routed_start : Routed .start :=
  ⟨consistent_start, fun h => absurd rfl h, nofun⟩

/-- Without an opening, the generation stays what it is until it is finalized. -/
theorem enroll_same {b : Option Roster} {x : SpawnAction} {r : Roster}
    (hopened : ∀ generationId, x ≠ .opened generationId) (h : enroll b x = some (some r)) :
    ∃ r₀, b = some r₀ ∧ r.generationId = r₀.generationId := by
  cases b with
  | none =>
    cases x with
    | opened generationId => exact absurd rfl (hopened generationId)
    | received | requested | spawned | skipped | cancelled | finalized => cases h
  | some r₀ =>
    refine ⟨r₀, rfl, ?_⟩
    cases x with
    | opened => cases h
    | received | requested | cancelled =>
      cases h
      rfl
    | spawned | skipped =>
      simp only [enroll] at h
      split at h
      · cases h
        rfl
      · cases h
    | finalized =>
      simp only [enroll] at h
      split at h <;> cases h

/-- The module's roster accepts what the spawner's does, received entries if they are named. -/
theorem route_of_enroll {b b' : Option Roster} {chunk : Option String} {x : SpawnAction}
    (hnamed : ∀ entry, x = .received entry → named chunk b = true) (h : enroll b x = some b') :
    route b (.spawner chunk x) = some b' := by
  cases x with
  | received entry => rw [route, if_pos (hnamed entry rfl), h]
  | opened | requested | spawned | skipped | cancelled | finalized => exact h

/-- What the spawner shows drives the roster of the module, if entries are received only from a
chunk that names the open generation, with no other opened meanwhile. -/
theorem follow_route {chunk : Option String} {b b' : Option Roster} {o : List SpawnAction}
    (hnamed : ∀ entry, .received entry ∈ o → (∀ generationId, .opened generationId ∉ o) ∧
      ∀ r, b = some r → named chunk (some r) = true) (h : follow enroll b o = some b') :
    follow route b (o.map (.spawner chunk)) = some b' := by
  induction o generalizing b with
  | nil => exact h
  | cons x o ih =>
    obtain ⟨b₁, hx, hrest⟩ := Option.bind_eq_some_iff.mp h
    have hstep : route b (.spawner chunk x) = some b₁ := by
      refine route_of_enroll (fun entry hentry => ?_) hx
      subst hentry
      cases b with
      | none => cases hx
      | some r => exact (hnamed entry List.mem_cons_self).2 r rfl
    rw [List.map_cons, follow_cons_some hstep]
    refine ih (fun entry hentry => ?_) hrest
    obtain ⟨hopened, hchunk⟩ := hnamed entry (.tail _ hentry)
    refine ⟨fun generationId hmem => hopened generationId (.tail _ hmem), ?_⟩
    rintro r rfl
    have hne : ∀ generationId, x ≠ .opened generationId := by
      rintro generationId rfl
      exact hopened generationId List.mem_cons_self
    obtain ⟨r₀, rfl, hsame⟩ := enroll_same hne hx
    rw [named, Option.any_some, hsame]
    exact hchunk r₀ rfl

/-! ### Calls that open and close nothing -/

/-- The generation goes on, or was to be finalized when drained and has been. -/
def Continues (s t : Spawner) : Prop :=
  (t.activeTransaction = s.activeTransaction ∧ SameGeneration s t) ∨
    (s.finalizeWhenDrained = true ∧ t.activeTransaction = false)

section Calls

variable {s t : Spawner}

theorem Continues.refl (s : Spawner) : Continues s s := .inl ⟨rfl, rfl, rfl⟩

theorem Handles.continues {es : Multiset AssetEntry} {o : List SpawnAction} (h : Handles es s o t)
    (hs : Open s) : Continues s t :=
  .inl ⟨(h hs).1.2.trans hs.2.symm, (h hs).2.1⟩

theorem loaded_continues (key : String) (ans : LoadAnswers) (hI : Consistent s) :
    Continues s (onCategoryAssetLoaded key ans s).1 := by
  rcases Bool.eq_false_or_eq_true s.activeTransaction with ha | ha
  · exact (loaded_handles key ans s).continues ⟨hI, ha⟩
  · rw [loaded_closed key ans hI ha]
    exact .refl s

theorem enqueueEntries_continues (entries : List (AssetEntry × RequestAnswers))
    (hI : Consistent s) : Continues s (enqueueEntries entries s).1 := by
  unfold enqueueEntries
  split
  · exact (receiveEntries_handles entries s).continues ⟨hI, ‹_›⟩
  · exact .refl s

theorem finalizeIfDrained_continues (s : Spawner) : Continues s (finalizeIfDrained s).1 := by
  unfold finalizeIfDrained
  split
  · rename_i h
    exact .inr ⟨h.1, rfl⟩
  · exact .refl s

theorem spawnTick_continues (world : Bool) (turns : List Turn) (hI : Consistent s) :
    Continues s (spawnTick world turns s).1 := by
  unfold spawnTick
  split
  · rename_i ha
    split
    · exact finalizeIfDrained_continues s
    · split
      · -- what is drained stays the same generation until it is finalized
        obtain ⟨⟨-, ha'⟩, hsame, -⟩ := drained_handles turns s ⟨hI, ha⟩
        have hlast := finalizeIfDrained_continues
          (seq (drain turns) (seq compact publishPending) s).1
        rcases hlast with ⟨hstays, hrest⟩ | ⟨hflag, hclosed⟩
        · exact .inl ⟨hstays.trans (ha'.trans ha.symm), hsame.trans hrest⟩
        · exact .inr ⟨hsame.2.symm.trans hflag, hclosed⟩
      · exact .refl s
  · exact .refl s

/-- A generation that has been ended is closed, or to be finalized when drained. -/
theorem endGeneration_drains (discard : Bool) (completed : ℕ → Bool) (s : Spawner)
    (h : (endGeneration discard completed s).1.activeTransaction = true) :
    (endGeneration discard completed s).1.finalizeWhenDrained = true := by
  unfold endGeneration at h ⊢
  by_cases ha : s.activeTransaction = true
  · rw [if_pos ha] at h ⊢
    cases discard with
    | true => cases h
    | false =>
      by_cases hpending : s.numPendingEntries = 0
      · simp only [Bool.false_eq_true, if_false, if_pos hpending] at h
        cases h
      · simp only [Bool.false_eq_true, if_false, if_neg hpending]
  · rw [if_neg ha] at h
    exact absurd h ha

end Calls

/-! ### Events -/

section Events

variable {m : EditorModule}

/-- A call of the spawner in which the generation goes on. -/
theorem onSpawner_routes {chunk : Option String} {f : SpawnOp} (hf : Enrolls f)
    (hcontinues : Consistent m.spawner → Continues m.spawner (f m.spawner).1)
    (hnamed : ∀ entry, .received entry ∈ (f m.spawner).2 →
      (∀ generationId, .opened generationId ∉ (f m.spawner).2) ∧
        ∀ r, m.roster = some r → named chunk (some r) = true) :
    Follows route Routed EditorModule.roster m (onSpawner chunk f m).2 (onSpawner chunk f m).1 := by
  intro hI
  obtain ⟨hconsistent, hroster⟩ := hf m.spawner hI.consistent
  refine ⟨⟨hconsistent, fun hid => ?_, fun ha hid => ?_⟩, follow_route hnamed hroster⟩
  · obtain ⟨ha, hsame, hflag⟩ := hI.held hid
    rcases hcontinues hI.consistent with ⟨hstays, hgeneration⟩ | ⟨hdrained, -⟩
    · exact ⟨hstays.trans ha, hgeneration.1.trans hsame, hgeneration.2.trans hflag⟩
    · rw [hflag] at hdrained
      cases hdrained
  · rcases hcontinues hI.consistent with ⟨hstays, hgeneration⟩ | ⟨-, hclosed⟩
    · exact hgeneration.2.trans (hI.draining (hstays.symm.trans ha) hid)
    · exact absurd (ha.symm.trans hclosed) (by simp)

theorem loaded_routes (key : String) (ans : LoadAnswers) :
    Routes (onSpawner none (onCategoryAssetLoaded key ans)) := fun m =>
  onSpawner_routes (loaded_enrolls key ans) (loaded_continues key ans) fun _ hmem =>
    absurd (loaded_progresses key ans m.spawner _ hmem).within id

theorem spawnTick_routes (world : Bool) (turns : List Turn) :
    Routes (onSpawner none (spawnTick world turns)) := fun m =>
  onSpawner_routes (spawnTick_enrolls world turns) (spawnTick_continues world turns) fun _ hmem =>
    absurd (spawnTick_orderly world turns m.spawner _ hmem).within id

/-- The module lets the generation go. -/
theorem endActive_routes (discard : Bool) (completed : ℕ → Bool) :
    Routes (endActive discard completed) := by
  intro m hI
  obtain ⟨hconsistent, hroster⟩ := endGeneration_enrolls discard completed m.spawner hI.consistent
  refine ⟨⟨hconsistent, fun hid => absurd rfl hid, fun ha _ => ?_⟩, ?_⟩
  · exact endGeneration_drains discard completed m.spawner ha
  · simp only [endActive, seq, onSpawner, setActiveGenerationId, List.append_nil]
    exact follow_route (fun _ hmem =>
      absurd (endGeneration_within discard completed m.spawner _ hmem) id) hroster

/-- What is sent does not concern the roster. -/
theorem sendCancel_routes (generationId : String) (connected : Bool) :
    Routes (sendCancel generationId connected) := by
  intro m hI
  refine ⟨hI, ?_⟩
  unfold sendCancel
  split
  · exact follow_singleton rfl
  · rfl

/-- No entry comes in while a generation begins. -/
theorem beginGeneration_receives (generationId : String)
    (manifest : Option (TMap ManifestAssetEntry)) (completed : ℕ → Bool) (s : Spawner)
    (entry : AssetEntry) :
    .received entry ∉ (beginGeneration generationId manifest completed s).2 := by
  intro hmem
  rcases List.mem_append.mp hmem with hmem | hmem
  · exact endGeneration_within true completed s _ hmem
  · cases List.mem_singleton.mp hmem

/-- The old generation ends, if one is open, and the new one is opened. -/
theorem beginGeneration_follow (generationId : String)
    (manifest : Option (TMap ManifestAssetEntry)) (completed : ℕ → Bool)
    (hI : Consistent m.spawner) :
    follow route m.roster (onSpawner none (beginGeneration generationId manifest completed) m).2 =
      some (onSpawner none (beginGeneration generationId manifest completed) m).1.roster := by
  refine follow_route (fun entry hmem => ?_)
    (beginGeneration_enrolls generationId manifest completed m.spawner hI).2
  exact absurd hmem (beginGeneration_receives generationId manifest completed m.spawner entry)

theorem startGeneration_routes (prompt : String) (seed : Option ℤ) (areaMeters : ℚ)
    (ans : StartAnswers) : Routes (startGeneration prompt seed areaMeters ans) := by
  unfold startGeneration
  split
  · intro m hI
    have hbegin := beginGeneration_enrolls ans.generationId
      (some (getOrLoadManifest ans.manifest)) ans.completed m.spawner hI.consistent
    refine ⟨⟨hbegin.1, fun _ => ⟨rfl, rfl, rfl⟩,
      fun _ hid => absurd hid ans.generationId_ne⟩, ?_⟩
    rw [seq, seq, setActiveGenerationId, List.nil_append]
    refine (follow_append (beginGeneration_follow _ _ _ hI.consistent) _).trans ?_
    unfold sendGenerate
    split
    · exact follow_singleton rfl
    · rfl
  · exact meets_skip routes_composable

/-- An id that names nothing is the empty one. -/
theorem eq_empty_of_sameId {a : String} (h : sameId a "") : a = "" := by
  have hlist : a.toList = [] := List.map_eq_nil_iff.mp h
  exact String.toList_eq_nil_iff.mp hlist

theorem cancelActiveGeneration_routes (connected : Bool) (completed : ℕ → Bool) :
    Routes (cancelActiveGeneration connected completed) := by
  intro m
  unfold cancelActiveGeneration
  split
  · exact routes_composable.refl m
  · exact meets_seq routes_composable (sendCancel_routes _ connected)
      (endActive_routes true completed) m

/-- A chunk that names the generation whose id the module holds. -/
theorem handleChunk_routes {chunk : ChunkMessage} (hid : chunk.generationId ≠ "")
    (requests : ℕ → RequestAnswers) : Routes (handleChunk chunk requests) := by
  intro m
  unfold handleChunk
  split
  · rename_i hsame
    intro hI
    refine onSpawner_routes (enqueueEntries_enrolls _) (enqueueEntries_continues _) ?_ hI
    refine fun entry _ => ⟨fun generationId hopened => ?_, fun r hr => ?_⟩
    · rcases enqueueEntries_takes _ m.spawner _ hopened with ⟨e, he⟩ | hprogress
      · cases he
      · exact hprogress
    · have hactive : m.activeGenerationId ≠ "" := by
        intro hempty
        rw [hempty] at hsame
        exact hid (eq_empty_of_sameId hsame)
      obtain ⟨ha, hgeneration, -⟩ := hI.held hactive
      rw [EditorModule.roster, Spawner.roster, if_pos ha] at hr
      cases hr
      rw [Spawner.inFlightRoster, hgeneration]
      exact decide_eq_true hsame
  · exact routes_composable.refl m

theorem handleComplete_routes (complete : CompleteMessage) (completed : ℕ → Bool) :
    Routes (handleComplete complete completed) := by
  intro m
  unfold handleComplete
  split
  · exact endActive_routes false completed m
  · exact routes_composable.refl m

theorem handleServerError_routes (error : ErrorMessage) (completed : ℕ → Bool) :
    Routes (handleServerError error completed) := by
  intro m
  unfold handleServerError
  split
  · exact endActive_routes true completed m
  · exact routes_composable.refl m

theorem handleClosed_routes (completed : ℕ → Bool) : Routes (handleClosed completed) := by
  intro m
  unfold handleClosed
  split
  · exact endActive_routes true completed m
  · exact routes_composable.refl m

/-- **Every event keeps the invariant** and drives the roster. -/
theorem op_routes (E : Engine) (event : ModuleEvent) : Routes (event.op E) := by
  cases event with
  | start prompt seed areaMeters ans => exact startGeneration_routes prompt seed areaMeters ans
  | cancel connected completed => exact cancelActiveGeneration_routes connected completed
  | closed completed => exact handleClosed_routes completed
  | loaded key ans => exact loaded_routes key ans
  | tick world turns => exact spawnTick_routes world turns
  | frame data requests completed =>
    simp only [ModuleEvent.op]
    have hnames := parseServerMessage_names E data
    cases hparse : parseServerMessage E data with
    | plan plan => exact meets_skip routes_composable
    | chunk chunk =>
      rw [hparse] at hnames
      exact handleChunk_routes hnames requests
    | complete complete => exact handleComplete_routes complete completed
    | error error => exact handleServerError_routes error completed
    | invalid parseError => exact meets_skip routes_composable

end Events

/-! ### Reading the roster -/

def ModuleAction.spawnerAction : ModuleAction → Option SpawnAction
  | .spawner _ a => some a
  | _ => none

def ModuleAction.isOpened (x : ModuleAction) : Bool := x.spawnerAction.any SpawnAction.isOpened

def ModuleAction.isFinalized (x : ModuleAction) : Bool :=
  x.spawnerAction.any SpawnAction.isFinalized

/-- The id of the generation whose transaction is open after an action. -/
def SpawnAction.transaction (b : Option String) : SpawnAction → Option String
  | .opened generationId => some generationId
  | .finalized _ _ => none
  | _ => b

/-- The id of the generation whose transaction is open after what has been shown. -/
def openAfter (past : List ModuleAction) : Option String :=
  (past.filterMap ModuleAction.spawnerAction).foldl SpawnAction.transaction none

/-- The entry came in a chunk that names the generation, while that one was open, and its
transaction has been open since. -/
def CameFor (generationId : String) (entry : AssetEntry) (past : List ModuleAction) : Prop :=
  ∃ before chunk since, past = before ++ .spawner (some chunk) (.received entry) :: since ∧
    sameId chunk generationId ∧ openAfter before = some generationId ∧
    ∀ x ∈ since, x.isOpened = false ∧ x.isFinalized = false

section Reading

variable {past : List ModuleAction} {generationId : String} {entry : AssetEntry}

theorem CameFor.concat (h : CameFor generationId entry past) {x : ModuleAction}
    (hx : x.isOpened = false ∧ x.isFinalized = false) :
    CameFor generationId entry (past ++ [x]) := by
  obtain ⟨before, chunk, since, rfl, hid, hopen, hsince⟩ := h
  refine ⟨before, chunk, since ++ [x], by simp, hid, hopen, fun y hy => ?_⟩
  rcases List.mem_append.mp hy with hy | hy
  · exact hsince y hy
  · rw [List.mem_singleton.mp hy]
    exact hx

theorem openAfter_concat_spawner (past : List ModuleAction) (chunk : Option String)
    (a : SpawnAction) :
    openAfter (past ++ [.spawner chunk a]) = a.transaction (openAfter past) := by
  rw [openAfter, openAfter, List.filterMap_append, List.foldl_append]
  rfl

/-- What one action does to the open generation, and where its outstanding entries come from. -/
theorem enroll_step {b b' : Option Roster} {a : SpawnAction} (h : enroll b a = some b') :
    b'.map Roster.generationId = a.transaction (b.map Roster.generationId) ∧
      ∀ r, b' = some r → ∀ entry ∈ r.outstanding, a = .received entry ∨
        ∃ r₀, b = some r₀ ∧ r₀.generationId = r.generationId ∧ entry ∈ r₀.outstanding ∧
          a.isOpened = false ∧ a.isFinalized = false := by
  cases b with
  | none =>
    cases a with
    | received | spawned | skipped | finalized => cases h
    | requested | cancelled =>
      cases h
      exact ⟨rfl, nofun⟩
    | opened generationId =>
      cases h
      refine ⟨rfl, fun r hr entry hentry => ?_⟩
      cases hr
      exact absurd hentry (Multiset.notMem_zero entry)
  | some r₀ =>
    cases a with
    | opened => cases h
    | requested | cancelled =>
      cases h
      refine ⟨rfl, fun r hr entry hentry => ?_⟩
      cases hr
      exact .inr ⟨r₀, rfl, rfl, hentry, rfl, rfl⟩
    | received entry =>
      cases h
      refine ⟨rfl, fun r hr e he => ?_⟩
      cases hr
      rcases Multiset.mem_cons.mp he with rfl | he
      · exact .inl rfl
      · exact .inr ⟨r₀, rfl, rfl, he, rfl, rfl⟩
    | spawned | skipped =>
      simp only [enroll] at h
      split at h
      · cases h
        refine ⟨rfl, fun r hr entry hentry => ?_⟩
        cases hr
        exact .inr ⟨r₀, rfl, rfl, Multiset.mem_of_mem_erase hentry, rfl, rfl⟩
      · cases h
    | finalized =>
      simp only [enroll] at h
      split at h
      · cases h
        exact ⟨rfl, nofun⟩
      · cases h

theorem route_spawner {b b' : Option Roster} {chunk : Option String} {a : SpawnAction}
    (h : route b (.spawner chunk a) = some b') :
    enroll b a = some b' ∧ ∀ entry, a = .received entry → named chunk b = true := by
  cases a with
  | received entry =>
    simp only [route] at h
    split at h
    · exact ⟨h, fun _ _ => ‹_›⟩
    · cases h
  | opened | requested | spawned | skipped | cancelled | finalized => exact ⟨h, nofun⟩

/-- **Where an outstanding entry comes from.** -/
theorem follow_outstanding {b : Option Roster} (h : follow route none past = some b) :
    openAfter past = b.map Roster.generationId ∧
      ∀ r, b = some r → ∀ entry ∈ r.outstanding, CameFor r.generationId entry past := by
  induction past using List.reverseRecOn generalizing b with
  | nil =>
    cases h
    exact ⟨rfl, nofun⟩
  | append_singleton past x ih =>
    obtain ⟨b₀, hpast, hlast⟩ := follow_append_inv h
    obtain ⟨b₁, hx, hb⟩ := Option.bind_eq_some_iff.mp hlast
    cases hb
    obtain ⟨hopen, hcame⟩ := ih hpast
    cases x with
    | sentGenerate | sentCancel =>
      cases hx
      refine ⟨?_, fun r hr entry hentry => (hcame r hr entry hentry).concat ⟨rfl, rfl⟩⟩
      rw [← hopen, openAfter, openAfter, List.filterMap_append]
      exact congrArg _ (List.append_nil _)
    | spawner chunk a =>
      obtain ⟨hstep, hnamed⟩ := route_spawner hx
      obtain ⟨hnext, hfrom⟩ := enroll_step hstep
      refine ⟨by rw [openAfter_concat_spawner, hopen, hnext], fun r hr entry hentry => ?_⟩
      rcases hfrom r hr entry hentry with rfl | ⟨r₀, hr₀, hsame, hmem, hquiet⟩
      · obtain ⟨r₀, generationId, rfl, rfl, hid⟩ := exists_of_named (hnamed entry rfl)
        rw [hr] at hnext
        have hsame : r.generationId = r₀.generationId := Option.some.inj hnext
        rw [hsame]
        exact ⟨past, generationId, [], rfl, hid, hopen, fun _ hy => absurd hy List.not_mem_nil⟩
      · rw [← hsame]
        exact (hcame r₀ hr₀ entry hmem).concat hquiet

/-- The spawner's part of what the module's roster accepts. -/
theorem follow_enroll {b b' : Option Roster} {os : List ModuleAction}
    (h : follow route b os = some b') :
    follow enroll b (os.filterMap ModuleAction.spawnerAction) = some b' := by
  induction os generalizing b with
  | nil => exact h
  | cons x os ih =>
    obtain ⟨b₁, hx, hrest⟩ := Option.bind_eq_some_iff.mp h
    cases x with
    | sentGenerate | sentCancel =>
      cases hx
      exact ih hrest
    | spawner chunk a =>
      exact (follow_cons_some (route_spawner hx).1 _).trans (ih hrest)

/-- What the roster accepts next, after what it has accepted. -/
theorem follow_split {b : Option Roster} {chunk : Option String} {a : SpawnAction}
    {later : List ModuleAction}
    (h : follow route none (past ++ .spawner chunk a :: later) = some b) :
    ∃ b₀ b₁, follow route none past = some b₀ ∧ enroll b₀ a = some b₁ := by
  obtain ⟨b₀, hpast, hlater⟩ := follow_append_inv h
  obtain ⟨b₁, ha, -⟩ := Option.bind_eq_some_iff.mp hlater
  exact ⟨b₀, b₁, hpast, (route_spawner ha).1⟩

/-- **Where a spawned entry comes from.** -/
theorem follow_spawned {b : Option Roster} {chunk : Option String} {z : ℚ}
    {later : List ModuleAction}
    (h : follow route none (past ++ .spawner chunk (.spawned generationId entry z) :: later) =
      some b) : openAfter past = some generationId ∧ CameFor generationId entry past := by
  obtain ⟨b₀, b₁, hpast, ha⟩ := follow_split h
  obtain ⟨hopen, hcame⟩ := follow_outstanding hpast
  cases b₀ with
  | none => cases ha
  | some r =>
    simp only [enroll] at ha
    split at ha
    · rename_i hentry
      rw [hentry.1]
      exact ⟨hopen, hcame r rfl entry hentry.2⟩
    · cases ha

/-- Every generation that has been opened is finalized once, or open. -/
theorem follow_route_counts {b : Option Roster} {os : List ModuleAction}
    (h : follow route none os = some b) :
    os.countP ModuleAction.isOpened = os.countP ModuleAction.isFinalized + b.toList.length := by
  have hcount : ∀ p : SpawnAction → Bool,
      (os.filterMap ModuleAction.spawnerAction).countP p =
        os.countP fun x => x.spawnerAction.any p := by
    intro p
    rw [List.countP_filterMap]
    congr 1
    funext x
    cases x <;> rfl
  have hbooks := follow_counts (follow_simulated accept_of_enroll (follow_enroll h))
  rw [hcount, hcount] at hbooks
  cases b with
  | none => exact hbooks
  | some r => exact hbooks

end Reading

/-! ### Runs -/

/-- **Routing.**  After every sequence of starts, cancels, frames, closings of the socket, loads and
ticks:

* while the module holds an id, the spawner has that generation open and does not finalize it;
* a generation that is open without the module holding its id is finalized when drained;
* the roster accepts everything shown: each spawned or skipped entry is one of those received in
  the generation that is open, from chunks that name it, and each of these is processed once;
* an entry is spawned while the generation is open that its chunk names, as which it is spawned;
* a transaction is opened only when none is open and closed only when one is, and each that was
  opened has been closed once, but for the one that is open. -/
theorem generations_routed {E : Engine} {events : List ModuleEvent} {m : EditorModule}
    {os : List ModuleAction} (h : exec (toStep (ModuleEvent.op E)) .start events = some (m, os)) :
    (m.activeGenerationId ≠ "" → m.spawner.activeTransaction = true ∧
      m.spawner.activeGenerationId = m.activeGenerationId ∧
      m.spawner.finalizeWhenDrained = false) ∧
    (m.spawner.activeTransaction = true → m.activeGenerationId = "" →
      m.spawner.finalizeWhenDrained = true) ∧
    follow route none os = some m.roster ∧
    (∀ past chunk generationId entry z later,
      os = past ++ .spawner chunk (.spawned generationId entry z) :: later →
        openAfter past = some generationId ∧ CameFor generationId entry past) ∧
    (∀ past chunk generationId later, os = past ++ .spawner chunk (.opened generationId) :: later →
      openAfter past = none) ∧
    (∀ past chunk stats left later, os = past ++ .spawner chunk (.finalized stats left) :: later →
      openAfter past ≠ none) ∧
    os.countP ModuleAction.isOpened =
      os.countP ModuleAction.isFinalized + (if m.spawner.activeTransaction then 1 else 0) := by
  obtain ⟨hI, hroster⟩ := exec_meets routes_composable (op_routes E) h routed_start
  refine ⟨hI.held, hI.draining, hroster, ?_, ?_, ?_, ?_⟩
  · rintro past chunk generationId entry z later rfl
    exact follow_spawned hroster
  · rintro past chunk generationId later rfl
    obtain ⟨b, b', hpast, ha⟩ := follow_split hroster
    cases b with
    | none => exact (follow_outstanding hpast).1
    | some r => cases ha
  · rintro past chunk stats left later rfl
    obtain ⟨b, b', hpast, ha⟩ := follow_split hroster
    cases b with
    | none => cases ha
    | some r =>
      rw [(follow_outstanding hpast).1]
      exact Option.some_ne_none r.generationId
  · have hempty : follow route none os = some m.spawner.roster := hroster
    rw [follow_route_counts hempty, Spawner.roster]
    split <;> rfl

/-- A chunk with one tree. -/
def treeFrame (generationId : String) : Bytes :=
  ascii ("\x7b\"protocol_version\":1,\"type\":\"chunk\",\"generation_id\":\"" ++ generationId ++
    "\",\"assets\":[\x7b\"category\":\"tree\"\x7d]\x7d")

def completeFrame (generationId : String) : Bytes :=
  ascii ("\x7b\"protocol_version\":1,\"type\":\"complete\",\"generation_id\":\"" ++ generationId ++
    "\",\"stats\":\x7b\"assets\":1\x7d\x7d")

def woodStart (guid : String) : StartAnswers :=
  ⟨true, true, guid, ⟨some woodManifest, none⟩, fun _ => true⟩

def treeTick : ModuleEvent := .tick true [⟨⟨none, true, true, true, true, true⟩, []⟩]

/-- A wood is cancelled and asked for once more; a tree of the first one arrives late, and the
second one is complete while one of its trees is still queued. -/
def woodEvents : List ModuleEvent :=
  [.start "a wood" none 70 (woodStart "0000AAAA1111"),
    .frame (treeFrame "gen-0000aaaa") (fun _ => loadLater) fun _ => true,
    .cancel true fun _ => true,
    .start "a wood" none 70 (woodStart "0000BBBB1111"),
    .frame (treeFrame "gen-0000aaaa") (fun _ => loadLater) fun _ => true,
    .frame (treeFrame "gen-0000bbbb") (fun _ => loadLater) fun _ => true,
    .frame (treeFrame "gen-0000bbbb") (fun _ => loadLater) fun _ => true,
    .loaded "tree" ⟨some (.staticMesh 0), none⟩,
    .frame (completeFrame "gen-0000bbbb") (fun _ => loadLater) fun _ => true,
    treeTick, .closed fun _ => true]

def ModuleAction.isSpawned : ModuleAction → Bool
  | .spawner _ (.spawned _ _ _) => true
  | _ => false

theorem exists_spawned {os : List ModuleAction} (h : os.any ModuleAction.isSpawned = true) :
    ∃ past chunk generationId entry z later,
      os = past ++ .spawner chunk (.spawned generationId entry z) :: later := by
  obtain ⟨x, hx, hspawned⟩ := List.any_eq_true.mp h
  obtain ⟨past, later, hos⟩ := List.append_of_mem hx
  unfold ModuleAction.isSpawned at hspawned
  split at hspawned
  · exact ⟨past, _, _, _, _, later, hos⟩
  · cases hspawned

theorem generations_routed_wood :
    ∃ m os past generationId entry,
      exec (toStep (ModuleEvent.op plainEngine)) .start woodEvents = some (m, os) ∧
      m.activeGenerationId = "" ∧ m.spawner.activeTransaction = true ∧
      m.spawner.finalizeWhenDrained = true ∧ m.spawner.numPendingEntries = 1 ∧
      openAfter past = some generationId ∧ CameFor generationId entry past ∧
      os.countP ModuleAction.isOpened = os.countP ModuleAction.isFinalized + 1 := by
  obtain ⟨m, os, h⟩ := exec_toStep (ModuleEvent.op plainEngine) .start woodEvents
  have hstate : (exec (toStep (ModuleEvent.op plainEngine)) .start woodEvents).map (fun p =>
      (p.1.activeGenerationId, p.1.spawner.activeTransaction, p.1.spawner.numPendingEntries,
        p.2.any ModuleAction.isSpawned)) = some ("", true, 1, true) := by
    decide +kernel
  rw [h] at hstate
  simp only [Option.map_some, Option.some.injEq, Prod.mk.injEq] at hstate
  obtain ⟨hid, ha, hpending, hspawned⟩ := hstate
  obtain ⟨past, chunk, generationId, entry, z, later, hos⟩ := exists_spawned hspawned
  obtain ⟨-, hdraining, -, hlanded, -, -, hcount⟩ := generations_routed h
  obtain ⟨hopen, hcame⟩ := hlanded past chunk generationId entry z later hos
  refine ⟨m, os, past, generationId, entry, h, hid, ha, hdraining ha hid, hpending, hopen, hcame,
    ?_⟩
  rw [hcount, if_pos ha]

end AetherForge.Plugin
