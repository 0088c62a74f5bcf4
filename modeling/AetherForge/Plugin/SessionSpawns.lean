import AetherForge.Plugin.SessionAgreement

/-!
# What the editor spawns

Every entry that is spawned as a generation was received for it, once for each time it is spawned;
what is received for a generation came with the messages that carry its id; and what these bring has
been placed for one request.

* `follow_accounts` — what the roster accepts is spawned no more often than it was received;
* `op_received` — what is received for a generation is what the event brings to it;
* `session_spawns` — what is spawned as a generation is among what has been placed for its request.
-/

namespace AetherForge.Plugin

open Go GoJson Interaction Operation StructJson Transition

/-! ### Entries of a generation -/

/-- The entry, if it is received from a chunk that names this generation. -/
def ModuleAction.receivedFor (generationId : String) : ModuleAction → Option AssetEntry
  | .spawner chunk (.received entry) =>
    if chunk.any fun name => sameId name generationId then some entry else none
  | _ => none

/-- The entries received from chunks that name a generation. -/
def receivedFor (generationId : String) (os : List ModuleAction) : List AssetEntry :=
  os.filterMap (ModuleAction.receivedFor generationId)

theorem receivedFor_append (generationId : String) (os os' : List ModuleAction) :
    receivedFor generationId (os ++ os') =
      receivedFor generationId os ++ receivedFor generationId os' := List.filterMap_append

/-- How often an entry is outstanding, if the roster is this generation's. -/
def outstandingFor (generationId : String) (entry : AssetEntry) : Option Roster → ℕ
  | some r => if r.generationId = generationId then r.outstanding.count entry else 0
  | none => 0

section Roster

variable (generationId : String) (entry : AssetEntry)

/-- What the roster accepts next is received now, or uses up what was outstanding. -/
theorem enroll_accounts {b b' : Option Roster} {chunk : Option String} {a : SpawnAction}
    (h : route b (.spawner chunk a) = some b') :
    ((ModuleAction.spawner chunk a).spawnedFor generationId).toList.count entry +
        outstandingFor generationId entry b' ≤
      ((ModuleAction.spawner chunk a).receivedFor generationId).toList.count entry +
        outstandingFor generationId entry b := by
  obtain ⟨henroll, hnamed⟩ := route_spawner h
  cases b with
  | none =>
    cases a with
    | received | spawned | skipped | finalized => cases henroll
    | requested | cancelled =>
      cases henroll
      exact Nat.le_refl _
    | opened id =>
      cases henroll
      simp [outstandingFor, ModuleAction.spawnedFor]
  | some r =>
    cases a with
    | opened => cases henroll
    | requested | cancelled =>
      cases henroll
      simp [ModuleAction.spawnedFor]
    | finalized =>
      simp only [enroll] at henroll
      split at henroll
      · cases henroll
        simp [outstandingFor, ModuleAction.spawnedFor]
      · cases henroll
    | received e =>
      cases henroll
      obtain ⟨r₀, name, hr, rfl, hsame⟩ := exists_of_named (hnamed e rfl)
      cases hr
      by_cases hid : r.generationId = generationId
      · have hnames : sameId name generationId := hid ▸ hsame
        by_cases he : e = entry
        · simp [outstandingFor, ModuleAction.spawnedFor, ModuleAction.receivedFor, hid, hnames, he,
            add_comm]
        · simp [outstandingFor, ModuleAction.spawnedFor, hid,
            Multiset.count_cons_of_ne (Ne.symm he)]
      · simp [outstandingFor, ModuleAction.spawnedFor, hid]
    | skipped e =>
      simp only [enroll] at henroll
      split at henroll
      · cases henroll
        have hfewer := Multiset.count_le_of_le entry (Multiset.erase_le e r.outstanding)
        by_cases hid : r.generationId = generationId
        · simpa [outstandingFor, ModuleAction.spawnedFor, ModuleAction.receivedFor, hid]
            using hfewer
        · simp [outstandingFor, ModuleAction.spawnedFor, hid]
      · cases henroll
    | spawned id e z =>
      simp only [enroll] at henroll
      split at henroll
      · rename_i hentry
        cases henroll
        obtain ⟨rfl, hmem⟩ := hentry
        by_cases hid : r.generationId = generationId
        · by_cases hsame : e = entry
          · subst hsame
            have hone := Multiset.count_erase_self e r.outstanding
            have hpos := Multiset.one_le_count_iff_mem.mpr hmem
            have htotal : 1 + (r.outstanding.erase e).count e ≤ r.outstanding.count e := by omega
            simpa [outstandingFor, ModuleAction.spawnedFor, ModuleAction.receivedFor, hid]
              using htotal
          · simp [outstandingFor, ModuleAction.spawnedFor, hid,
              Multiset.count_erase_of_ne (Ne.symm hsame), hsame]
        · simp [outstandingFor, ModuleAction.spawnedFor, hid]
      · cases henroll

/-- **What is spawned was received**, as often as it is spawned. -/
theorem follow_accounts {past : List ModuleAction} {b : Option Roster}
    (h : follow route none past = some b) :
    (spawnedFor generationId past).count entry + outstandingFor generationId entry b ≤
      (receivedFor generationId past).count entry := by
  induction past using List.reverseRecOn generalizing b with
  | nil =>
    cases h
    exact Nat.le_refl _
  | append_singleton past x ih =>
    obtain ⟨b₀, hpast, hlast⟩ := follow_append_inv h
    obtain ⟨b₁, hx, hb⟩ := Option.bind_eq_some_iff.mp hlast
    cases hb
    have hearlier := ih hpast
    have hone : ∀ f : ModuleAction → Option AssetEntry, [x].filterMap f = (f x).toList := by
      intro f
      cases hfx : f x <;> simp [hfx]
    rw [spawnedFor, receivedFor, List.filterMap_append, List.filterMap_append, List.count_append,
      List.count_append, hone, hone]
    rw [spawnedFor, receivedFor] at hearlier
    cases x with
    | sentGenerate | sentCancel =>
      cases hx
      simpa [ModuleAction.spawnedFor, ModuleAction.receivedFor] using hearlier
    | spawner chunk a =>
      have hnext := enroll_accounts generationId entry hx
      omega

end Roster

/-! ### Entries and chunks -/

section Events

variable {m : EditorModule} {chunk : Option String} {entry : AssetEntry}

theorem entry_received {os : List ModuleAction} (h : .spawner chunk (.received entry) ∈ os) :
    entry ∈ entriesReceived os :=
  List.mem_filterMap.mpr ⟨_, List.mem_filterMap.mpr ⟨_, h, rfl⟩, rfl⟩

/-- A start receives nothing. -/
theorem start_receives (prompt : String) (seed : Option ℤ) (areaMeters : ℚ) (ans : StartAnswers) :
    .spawner chunk (.received entry) ∉ (startGeneration prompt seed areaMeters ans m).2 := by
  intro h
  unfold startGeneration at h
  split at h
  · rcases List.mem_append.mp h with h | h
    · cases h
    rcases List.mem_append.mp h with h | h
    · obtain ⟨a, ha, heq⟩ := List.mem_map.mp h
      cases heq
      exact beginGeneration_receives _ _ _ _ entry ha
    · simp only [sendGenerate] at h
      split at h
      · cases List.mem_singleton.mp h
      · cases h
  · cases h

/-- The end of a generation receives nothing. -/
theorem endActive_received (discard : Bool) (completed : ℕ → Bool) :
    .spawner chunk (.received entry) ∉ (endActive discard completed m).2 := by
  intro h
  have hnone := entry_received h
  rw [endActive_receives] at hnone
  cases hnone

/-- Nothing else receives anything. -/
theorem receivedFor_nil {generationId : String} {os : List ModuleAction}
    (h : ∀ chunk entry, .spawner chunk (.received entry) ∉ os) :
    receivedFor generationId os = [] := by
  refine List.filterMap_eq_nil_iff.mpr fun x hx => ?_
  cases x with
  | sentGenerate | sentCancel => rfl
  | spawner chunk a =>
    cases a with
    | received entry => exact absurd hx (h chunk entry)
    | opened | requested | spawned | skipped | cancelled | finalized => rfl

/-- What a chunk makes the spawner receive is received for the generation that it names. -/
theorem receivedFor_onSpawner (generationId name : String) (f : SpawnOp) :
    receivedFor generationId (onSpawner (some name) f m).2 =
      if sameId name generationId then entriesReceived (onSpawner (some name) f m).2 else [] := by
  rw [entriesReceived, spawnerShows_onSpawner, receivedFor, onSpawner, List.filterMap_map]
  split
  · rename_i hsame
    refine List.filterMap_congr fun a _ => ?_
    cases a with
    | received entry => exact if_pos (decide_eq_true hsame)
    | opened | requested | spawned | skipped | cancelled | finalized => rfl
  · rename_i hother
    refine List.filterMap_eq_nil_iff.mpr fun a _ => ?_
    cases a with
    | received entry => exact if_neg fun hsame => hother (of_decide_eq_true hsame)
    | opened | requested | spawned | skipped | cancelled | finalized => rfl

/-- **An event** makes the spawner receive for a generation only what it brings to it. -/
theorem op_received (E : Engine) (event : ModuleEvent) (hrouted : Routed m)
    (generationId : String) :
    (receivedFor generationId (event.op E m).2).Sublist (event.brings E generationId) := by
  have hnothing : (∀ chunk entry, .spawner chunk (.received entry) ∉ (event.op E m).2) →
      (receivedFor generationId (event.op E m).2).Sublist (event.brings E generationId) := by
    intro h
    rw [receivedFor_nil h]
    exact List.nil_sublist _
  cases event with
  | start prompt seed areaMeters ans =>
    exact hnothing fun _ _ => start_receives prompt seed areaMeters ans
  | cancel connected completed =>
    refine hnothing fun chunk entry h => ?_
    simp only [ModuleEvent.op, cancelActiveGeneration] at h
    split at h
    · cases h
    · rcases List.mem_append.mp h with h | h
      · simp only [sendCancel] at h
        split at h
        · cases List.mem_singleton.mp h
        · cases h
      · exact endActive_received _ _ h
  | closed completed =>
    refine hnothing fun chunk entry h => ?_
    simp only [ModuleEvent.op, handleClosed] at h
    split at h
    · exact endActive_received _ _ h
    · cases h
  | loaded key ans =>
    refine hnothing fun chunk entry h => ?_
    have hload : (ModuleEvent.loaded key ans).arrival = true := rfl
    have hnone := entry_received h
    rw [(spawnerEvent_receives E hload rfl m).1] at hnone
    cases hnone
  | tick world turns =>
    refine hnothing fun chunk entry h => ?_
    have htick : (ModuleEvent.tick world turns).arrival = true := rfl
    have hnone := entry_received h
    rw [(spawnerEvent_receives E htick rfl m).1] at hnone
    cases hnone
  | frame data requests completed =>
    have hnames := parseServerMessage_names E data
    simp only [ModuleEvent.op, ModuleEvent.brings] at hnothing ⊢
    cases hparse : parseServerMessage E data with
    | plan | invalid =>
      rw [hparse] at hnothing
      exact hnothing fun _ _ h => (by cases h)
    | complete complete =>
      rw [hparse] at hnothing
      refine hnothing fun chunk entry h => ?_
      simp only [handleMessage, handleComplete] at h
      split at h
      · exact endActive_received _ _ h
      · cases h
    | error error =>
      rw [hparse] at hnothing
      refine hnothing fun chunk entry h => ?_
      simp only [handleMessage, handleServerError] at h
      split at h
      · exact endActive_received _ _ h
      · cases h
    | chunk c =>
      rw [hparse] at hnames
      by_cases hsame : sameId c.generationId m.activeGenerationId
      · have hid : m.activeGenerationId ≠ "" := by
          intro hempty
          exact hnames (eq_empty_of_sameId (hempty ▸ hsame))
        have hcarries : (ServerMessage.chunk c).carries m.activeGenerationId = true :=
          decide_eq_true hsame
        have hall := handleMessage_receives requests completed hcarries (hrouted.held hid).1
        simp only [handleMessage, handleChunk, if_pos hsame] at hall ⊢
        rw [receivedFor_onSpawner, hall]
        simp only [ServerMessage.carries, decide_eq_true_eq]
        exact .refl _
      · simp only [handleMessage, handleChunk, if_neg hsame]
        exact List.nil_sublist _

/-- The generation that is open has been opened. -/
theorem opening_of_open {past : List ModuleAction} {generationId : String}
    (h : openAfter past = some generationId) : generationId ∈ openings past := by
  induction past using List.reverseRecOn with
  | nil => cases h
  | append_singleton past x ih =>
    rw [openings_append, List.mem_append]
    cases x with
    | sentGenerate | sentCancel =>
      have hbefore : openAfter past = some generationId := by
        rw [← h, openAfter, openAfter, List.filterMap_append]
        exact congrArg _ (List.append_nil _).symm
      exact .inl (ih hbefore)
    | spawner chunk a =>
      rw [openAfter_concat_spawner] at h
      cases a with
      | opened =>
        cases h
        exact .inr (List.mem_singleton.mpr rfl)
      | finalized => cases h
      | received | requested | spawned | skipped | cancelled => exact .inl (ih h)

/-- An entry is spawned as a generation that has been opened. -/
theorem opening_of_spawned {os : List ModuleAction} {b : Option Roster} {generationId : String}
    (h : follow route none os = some b) (hentry : entry ∈ spawnedFor generationId os) :
    generationId ∈ openings os := by
  obtain ⟨x, hx, hspawned⟩ := List.mem_filterMap.mp hentry
  cases x with
  | sentGenerate | sentCancel => cases hspawned
  | spawner chunk a =>
    cases a with
    | opened | received | requested | skipped | cancelled | finalized => cases hspawned
    | spawned id e z =>
      simp only [ModuleAction.spawnedFor] at hspawned
      split at hspawned
      · rename_i hid
        subst hid
        obtain ⟨past, later, rfl⟩ := List.append_of_mem hx
        rw [openings_append]
        exact List.mem_append_left _ (opening_of_open (follow_spawned h).1)
      · cases hspawned

end Events

/-! ### Sessions -/

section Sessions

variable {W : Peers} {forge : EditorModule} {entries : TMap ManifestAssetEntry}
  {os : List SessionAction} {s : Session}

/-- What is received for a generation came with the messages that carry its id. -/
def Brought (E : Engine) (past : List SessionAction) : Prop :=
  ∀ id, (receivedFor id (edits past)).Sublist
    (((heardMessages E past).filter (·.carries id)).flatMap ServerMessage.assets)

/-- **Run lemma.** -/
theorem run_brought (hrouted : Routed forge) {steps : List SessionEvent}
    (hrun : exec (stepSession W) (.start W forge entries) steps = some (s, os)) :
    Brought W.engine os := by
  have hrule : Routed s.forge ∧ Brought W.engine ([] ++ os) := by
    have hstart : Routed (Session.start W forge entries).forge ∧ Brought W.engine [] :=
      ⟨hrouted, fun _ => .refl _⟩
    refine exec_history (J := fun past s => Routed s.forge ∧ Brought W.engine past) ?_ hstart hrun
    rintro past s event s' o ⟨hI, hB⟩ hstep
    cases step_taken hstep with
    | handled event down hdown =>
      refine ⟨op_routed W.engine event hI, fun id => ?_⟩
      have hnew := op_received W.engine event hI id
      rw [brings_eq] at hnew
      rw [edits_append, heardMessages_append]
      simp only [Session.handle]
      rw [edits_delivered, heard_delivered, List.filter_append, List.flatMap_append,
        receivedFor_append]
      exact (hB id).append hnew
    | served turn up hup hserve =>
      obtain ⟨⟨c, xs⟩, -, heq⟩ := Option.map_eq_some_iff.mp hserve
      cases heq
      refine ⟨hI, fun id => ?_⟩
      have hearlier := hB id
      rwa [edits_append, edits_server, List.append_nil, heardMessages, deliveries_append,
        deliveries_server, List.append_nil]
  exact hrule.2

/-- **What the editor spawns.**  The module has just been connected, with no transaction open, and
the manifest has an entry.  In every run of both ends, whatever is started, cancelled, refused or on
its way: what is spawned as a generation is among what the server has placed for one request, which
has that id; and nothing of it is spawned twice. -/
theorem session_spawns (hW : W.Lawful) (hvalid : ValidEntries entries)
    (hne : entries.entries ≠ []) {events₀ : List ModuleEvent} {past₀ : List ModuleAction}
    (hreach : exec (toStep (ModuleEvent.op W.engine)) .start events₀ = some (forge, past₀))
    (hclosed : forge.spawner.activeTransaction = false) {steps : List SessionEvent}
    (hrun : exec (stepSession W) (.start W forge entries) steps = some (s, os))
    (hproper : Proper W os) {generationId : String}
    (hsome : spawnedFor generationId (edits os) ≠ []) :
    ∃ req ∈ generated (edits os), req.generationId = generationId ∧ ∃ placed,
      PlacedFor W os req placed ∧
        (spawnedFor generationId (edits os)).Subperm (placed.map AssetEntry.received) := by
  have hrouted : Routed forge := (exec_meets routes_composable (op_routes W.engine) hreach
    routed_start).1
  have hidle : forge.activeGenerationId = "" := by
    by_contra hactive
    have hopen := (hrouted.held hactive).1
    rw [hclosed] at hopen
    cases hopen
  have hL := run_linked hrun
  have hH := run_hears hW hvalid hne hrouted hidle hrun hproper
  obtain ⟨reqs, hS⟩ := linked_serves hW hvalid hne hproper.seeds hL
  -- the roster accepts everything that the module shows
  obtain ⟨events, hmodule⟩ := hL.module
  have hroster := (exec_meets routes_composable (op_routes W.engine) hmodule hrouted).2
  have hnone : forge.roster = none := by
    rw [EditorModule.roster, Spawner.roster, hclosed]
    rfl
  rw [hnone] at hroster
  -- so what is spawned was received, and came with the messages that carry the id
  have hreceived : (spawnedFor generationId (edits os)).Subperm
      (receivedFor generationId (edits os)) := by
    refine List.subperm_ext_iff.mpr fun entry _ => ?_
    have haccounts := follow_accounts generationId entry hroster
    omega
  have hbrought := run_brought hrouted hrun generationId
  obtain ⟨entry, hentry⟩ := List.exists_mem_of_ne_nil _ hsome
  have hcame := hbrought.subset (hreceived.subset hentry)
  obtain ⟨ms, hms, hheard⟩ := hL.heard
  rw [hheard, filter_parsed] at hbrought hcame
  have hopened := opening_of_spawned hroster hentry
  rcases hH.written hW hvalid hproper hS hopened with hempty | ⟨i, req, hi, hmem, hid, hpre⟩
  · have hsub := hms.sublist.filter fun m => (W.parsed m).carries generationId
    rw [hempty] at hsub
    rw [List.sublist_nil.mp hsub] at hcame
    cases hcame
  · have hreqId : req.generationId ≠ "" := hid ▸ hH.named _ hopened
    obtain ⟨placed, hplaced, hfirst⟩ := hS.part hW hvalid hproper hi hreqId
      ((hms.filter _).trans hpre) (List.ne_nil_of_mem hcame)
    exact ⟨req, hmem, hid, placed, hplaced,
      (hreceived.trans hbrought.subperm).trans hfirst.sublist.subperm⟩

end Sessions

theorem session_spawns_shrub :
    ∃ s os, ∃ placed : List AetherForge.AssetEntry,
      exec (stepSession shrubPeers) (.start shrubPeers .start shrubAsset) restartSteps =
        some (s, os) ∧
      (spawnedFor "gen-89abcdef" (edits os)).length = 1 ∧
      PlacedFor shrubPeers os heathAsked placed ∧
      (spawnedFor "gen-89abcdef" (edits os)).Subperm (placed.map AssetEntry.received) := by
  obtain ⟨s, os, hrun, hrestarted⟩ := restart_runs
  have hreach : exec (toStep (ModuleEvent.op shrubPeers.engine)) .start [] =
      some (EditorModule.start, []) := rfl
  obtain ⟨-, -, hasked, hspawned, -⟩ := of_decide_eq_true hrestarted
  have hone : (spawnedFor "gen-89abcdef" (edits os)).length = 1 := hspawned
  obtain ⟨req, hreq, hsame, placed, hplaced, hentries⟩ := session_spawns shrubPeers_lawful
    validEntries_shrub (List.cons_ne_nil _ _) hreach rfl hrun (proper_of_restarted hrestarted)
    (List.ne_nil_of_length_eq_add_one hone)
  rw [hasked, List.mem_pair] at hreq
  rcases hreq with rfl | rfl
  · exact absurd hsame (by decide)
  · exact ⟨s, os, placed, hrun, hone, hplaced, hentries⟩

end AetherForge.Plugin
