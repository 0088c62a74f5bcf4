import AetherForge.Plugin.SpawnLedger

/-!
# Conservation

What the books say about runs of the spawner: no entry is lost or counted twice, each generation
has one exact broadcast, and a generation that ends by itself has processed every entry.

* `Progresses` — operations that neither receive nor discard;
* `call_tally` — how one call changes the number of entries handed over;
* `spawner_conserves` — conservation over every run.
-/

namespace AetherForge.Plugin

open Operation Transition

/-! ### What calls show -/

/-- What the processing of entries shows: nothing is discarded. -/
def SpawnAction.Progress : SpawnAction → Prop
  | .requested _ _ => True
  | .spawned _ _ _ => True
  | .skipped _ why => why ≠ .discarded
  | _ => False

/-- What is shown while no entry comes in. -/
def SpawnAction.Within : SpawnAction → Prop
  | .opened _ => False
  | .received _ => False
  | _ => True

def SpawnAction.isOpened : SpawnAction → Bool
  | .opened _ => true
  | _ => false

def SpawnAction.isFinalized : SpawnAction → Bool
  | .finalized _ _ => true
  | _ => false

/-- What is shown while entries come in: they are received, and processed. -/
def SpawnAction.Intake (x : SpawnAction) : Prop := (∃ entry, x = .received entry) ∨ x.Progress

/-- What a call shows that ends a generation only when everything has been processed. -/
def SpawnAction.Orderly (x : SpawnAction) : Prop := x.Progress ∨ x.isFinalized = true

theorem SpawnAction.Progress.within {x : SpawnAction} (h : x.Progress) : x.Within := by
  cases x with
  | opened | received => exact h
  | requested | spawned | skipped | cancelled | finalized => trivial

theorem SpawnAction.Orderly.within {x : SpawnAction} (h : x.Orderly) : x.Within := by
  rcases h with h | h
  · exact h.within
  · cases x with
    | opened | received => cases h
    | requested | spawned | skipped | cancelled | finalized => trivial

theorem SpawnAction.Orderly.not_discarded {entry : AssetEntry} :
    ¬(SpawnAction.skipped entry .discarded).Orderly := by
  rintro (h | h)
  · exact h rfl
  · cases h

/-- The operation only makes progress. -/
abbrev Progresses (f : SpawnOp) : Prop := Meets (ShowsAll SpawnAction.Progress) f

theorem progress_composable :
    Composable (ShowsAll SpawnAction.Progress : Spawner → List SpawnAction → Spawner → Prop) :=
  showsAll_composable _

theorem skipEntry_progresses (entry : AssetEntry) {why : SkipReason} (h : why ≠ .discarded) :
    Progresses (skipEntry entry why) := by
  intro s x hx
  rw [List.mem_singleton.mp hx]
  exact h

theorem countSpawned_progresses (entry : AssetEntry) (z : ℚ) :
    Progresses (countSpawned entry z) := by
  intro s x hx
  rw [List.mem_singleton.mp hx]
  trivial

theorem loaded_progresses (key : String) (ans : LoadAnswers) :
    Progresses (onCategoryAssetLoaded key ans) := by
  intro s
  unfold onCategoryAssetLoaded
  split
  · exact progress_composable.refl s
  · split
    · intro x hx
      obtain ⟨e, _, rfl⟩ := List.mem_map.mp hx
      exact nofun
    · exact progress_composable.refl s

theorem requestAsyncLoad_progresses (key : String) (ans : RequestAnswers) :
    Progresses (requestAsyncLoad key ans) := by
  intro s
  refine meets_seq progress_composable ?_ ?_ _
  · cases ans.atOnce with
    | none => exact meets_skip progress_composable
    | some load => exact loaded_progresses key load
  · intro t x hx
    rw [List.mem_singleton.mp hx]
    trivial

theorem queueEntry_progresses (entry : AssetEntry) (assetValid : Bool) :
    Progresses (queueEntry entry assetValid) := by
  intro s
  unfold queueEntry
  split
  · exact progress_composable.refl s
  · split <;> exact progress_composable.refl s

theorem enqueueEntry_progresses (entry : AssetEntry) (ans : RequestAnswers) :
    Progresses (enqueueEntry entry ans) := by
  intro s
  unfold enqueueEntry
  split
  · exact skipEntry_progresses entry (by decide) s
  · split
    · exact skipEntry_progresses entry (by decide) s
    · split
      · exact queueEntry_progresses entry _ s
      · split
        · exact meets_seq progress_composable (requestAsyncLoad_progresses _ ans)
            (queueEntry_progresses entry _) _
        · exact skipEntry_progresses entry (by decide) _

theorem spawnInstanced_progresses (entry : AssetEntry) (rt : CategoryRuntime) (ans : SpawnAnswers)
    (z : ℚ) : Progresses (spawnInstanced entry rt ans z) := by
  intro s
  unfold spawnInstanced
  split
  · split
    · exact countSpawned_progresses entry z _
    · exact skipEntry_progresses entry (by decide) s
  · exact skipEntry_progresses entry (by decide) s

theorem spawnAsActor_progresses (entry : AssetEntry) (rt : CategoryRuntime) (ans : SpawnAnswers)
    (z : ℚ) : Progresses (spawnAsActor entry rt ans z) := by
  unfold spawnAsActor
  split
  · split
    · exact countSpawned_progresses entry z
    · exact skipEntry_progresses entry (by decide)
  · exact skipEntry_progresses entry (by decide)

theorem spawnEntry_progresses (entry : AssetEntry) (rt : CategoryRuntime) (ans : SpawnAnswers) :
    Progresses (spawnEntry entry rt ans) := by
  have hplace : ∀ z, Progresses (spawnAt entry rt ans z) := by
    intro z
    unfold spawnAt
    split
    · exact spawnInstanced_progresses entry rt ans z
    · exact spawnAsActor_progresses entry rt ans z
  unfold spawnEntry
  split
  · split
    · exact hplace _
    · exact skipEntry_progresses entry (by decide)
  · exact hplace 0

theorem takeEntry_progresses (entry : AssetEntry) (ans : SpawnAnswers) :
    Progresses (takeEntry entry ans) := by
  intro s
  simp only [takeEntry]
  split
  · exact spawnEntry_progresses entry _ ans _
  · exact progress_composable.refl s

theorem drain_progresses (turns : List Turn) : Progresses (drain turns) := by
  induction turns with
  | nil => exact meets_skip progress_composable
  | cons turn turns ih =>
    intro s
    simp only [drain]
    split
    · exact progress_composable.refl s
    · have hcompletions := meets_forEach progress_composable
        (fun c : String × LoadAnswers => loaded_progresses c.1 c.2) turn.completions
      exact meets_seq progress_composable (takeEntry_progresses _ turn.answers)
        (meets_seq progress_composable hcompletions ih) s

/-- The operation ends a generation only when everything has been processed. -/
abbrev IsOrderly (f : SpawnOp) : Prop := Meets (ShowsAll SpawnAction.Orderly) f

theorem orderly_composable :
    Composable (ShowsAll SpawnAction.Orderly : Spawner → List SpawnAction → Spawner → Prop) :=
  showsAll_composable _

theorem Progresses.orderly {f : SpawnOp} (h : Progresses f) : IsOrderly f :=
  fun s x hx => .inl (h s x hx)

theorem finalizeGeneration_orderly : IsOrderly finalizeGeneration := by
  intro s x hx
  rw [List.mem_singleton.mp hx]
  exact .inr rfl

theorem finalizeIfDrained_orderly : IsOrderly finalizeIfDrained := by
  intro s
  unfold finalizeIfDrained
  split
  · exact finalizeGeneration_orderly s
  · exact orderly_composable.refl s

/-- A tick discards nothing. -/
theorem spawnTick_orderly (world : Bool) (turns : List Turn) :
    IsOrderly (spawnTick world turns) := by
  have hcompact : IsOrderly compact := fun s => orderly_composable.refl s
  have hpublish : IsOrderly publishPending := fun s => orderly_composable.refl s
  intro s
  unfold spawnTick
  split
  · split
    · exact finalizeIfDrained_orderly s
    · split
      · exact meets_seq orderly_composable (drain_progresses turns).orderly
          (meets_seq orderly_composable hcompact
            (meets_seq orderly_composable hpublish finalizeIfDrained_orderly)) s
      · exact orderly_composable.refl s
  · exact orderly_composable.refl s

/-- `EndGeneration(false)` discards nothing. -/
theorem endGeneration_orderly (completed : ℕ → Bool) :
    IsOrderly (endGeneration false completed) := by
  intro s
  simp only [endGeneration]
  split
  · split
    · contradiction
    · split
      · exact finalizeGeneration_orderly s
      · exact orderly_composable.refl s
  · exact orderly_composable.refl s

/-- No entry comes in while a generation ends. -/
theorem endGeneration_within (discard : Bool) (completed : ℕ → Bool) :
    Meets (ShowsAll SpawnAction.Within) (endGeneration discard completed) := by
  cases discard with
  | false => exact fun s x hx => (endGeneration_orderly completed s x hx).within
  | true =>
    intro s x hx
    unfold endGeneration at hx
    split at hx
    · simp only [if_true, seq, discardPending, finalizeGeneration, List.mem_append,
        List.mem_map, List.mem_singleton] at hx
      rcases hx with (⟨e, _, rfl⟩ | ⟨n, _, rfl⟩) | rfl <;> trivial
    · cases hx

/-! ### Reading the books -/

section Reading

variable {s t : Spawner} {o : List SpawnAction}

/-- With no generation open, nothing more is finalized, and none becomes open. -/
theorem follow_closed {b : Option Account} (ho : ∀ x ∈ o, x.Within)
    (h : follow accept none o = some b) :
    b = none ∧ ∀ stats left, .finalized stats left ∉ o := by
  induction o with
  | nil =>
    cases h
    exact ⟨rfl, fun _ _ => List.not_mem_nil⟩
  | cons x o ih =>
    obtain ⟨b', hx, hrest⟩ := Option.bind_eq_some_iff.mp h
    have hwithin := ho x List.mem_cons_self
    cases x with
    | requested handle category =>
      cases hx
      obtain ⟨hb, hnot⟩ := ih (fun y hy => ho y (.tail _ hy)) hrest
      exact ⟨hb, fun stats left => by simp [hnot]⟩
    | cancelled handle =>
      cases hx
      obtain ⟨hb, hnot⟩ := ih (fun y hy => ho y (.tail _ hy)) hrest
      exact ⟨hb, fun stats left => by simp [hnot]⟩
    | opened => exact absurd hwithin id
    | received => cases hx
    | spawned => cases hx
    | skipped => cases hx
    | finalized => cases hx

/-- While no entry comes in, the number received stays, and a final broadcast states it. -/
theorem follow_within {a : Account} {b : Option Account} (ho : ∀ x ∈ o, x.Within)
    (h : follow accept (some a) o = some b) :
    (∀ a', b = some a' → a'.received = a.received) ∧
      ∀ stats left, .finalized stats left ∈ o →
        left = [] ∧ stats.spawnedCount + stats.skippedCount = a.received := by
  induction o generalizing a with
  | nil =>
    cases h
    exact ⟨fun a' ha' => by cases ha'; rfl, fun _ _ hmem => absurd hmem List.not_mem_nil⟩
  | cons x o ih =>
    obtain ⟨b', hx, hrest⟩ := Option.bind_eq_some_iff.mp h
    have hwithin := ho x List.mem_cons_self
    have ho' : ∀ y ∈ o, y.Within := fun y hy => ho y (.tail _ hy)
    cases x with
    | opened => exact absurd hwithin id
    | received => exact absurd hwithin id
    | requested | cancelled | spawned | skipped =>
      cases hx
      obtain ⟨hreceived, hfinal⟩ := ih ho' hrest
      exact ⟨hreceived, fun stats left hmem => hfinal stats left (by simpa using hmem)⟩
    | finalized stats left =>
      simp only [accept] at hx
      split at hx
      · rename_i hexact
        obtain ⟨hspawned, hskipped, hreceived, hleft⟩ := hexact
        cases hx
        obtain ⟨rfl, hnot⟩ := follow_closed ho' hrest
        refine ⟨fun a' ha' => (by cases ha'), fun stats' left' hmem => ?_⟩
        rcases List.mem_cons.mp hmem with heq | hmem
        · cases heq
          exact ⟨hleft, by omega⟩
        · exact absurd hmem (hnot stats' left')
      · cases hx

/-- An operation during which no entry comes in opens nothing and keeps the total, and what it
broadcasts is exact. -/
theorem follows_within (h : Follows accept Consistent Spawner.account s o t)
    (ho : ∀ x ∈ o, x.Within) (hI : Consistent s) :
    (t.activeTransaction = true → s.activeTransaction = true ∧ t.total = s.total) ∧
      ∀ stats left, .finalized stats left ∈ o →
        s.activeTransaction = true ∧ left = [] ∧
          stats.spawnedCount + stats.skippedCount = s.total := by
  have hbooks := (h hI).2
  rcases Bool.eq_false_or_eq_true s.activeTransaction with ha | ha
  · rw [Spawner.account, if_pos ha] at hbooks
    obtain ⟨hreceived, hfinal⟩ := follow_within ho hbooks
    refine ⟨fun ht => ⟨ha, ?_⟩, fun stats left hmem => ⟨ha, hfinal stats left hmem⟩⟩
    exact hreceived _ (if_pos ht)
  · rw [Spawner.account, ha] at hbooks
    obtain ⟨hnone, hnot⟩ := follow_closed ho hbooks
    refine ⟨fun ht => ?_, fun stats left hmem => absurd hmem (hnot stats left)⟩
    rw [Spawner.account, if_pos ht] at hnone
    cases hnone

/-- Entries in flight that are settled while no entry comes in are in the total. -/
theorem Settles.total {n : ℕ} (h : Settles n s o t) (ho : ∀ x ∈ o, x.Within) (hs : Open s) :
    t.total = s.total + n :=
  (follow_within ho ((h hs).2 0)).1 _ rfl

/-- Each generation that has been opened is finalized once, or open. -/
theorem follow_counts {b b' : Option Account} (h : follow accept b o = some b') :
    o.countP SpawnAction.isOpened + b.toList.length =
      o.countP SpawnAction.isFinalized + b'.toList.length := by
  induction o generalizing b with
  | nil =>
    cases h
    rfl
  | cons x o ih =>
    obtain ⟨b₁, hx, hrest⟩ := Option.bind_eq_some_iff.mp h
    have hlater := ih hrest
    rw [List.countP_cons, List.countP_cons]
    cases x with
    | opened =>
      cases b with
      | none =>
        cases hx
        simp [SpawnAction.isOpened, SpawnAction.isFinalized] at hlater ⊢
        omega
      | some a => cases hx
    | received | spawned | skipped =>
      cases b with
      | none => cases hx
      | some a =>
        cases hx
        simpa [SpawnAction.isOpened, SpawnAction.isFinalized] using hlater
    | requested | cancelled =>
      have hsame : b₁ = b := by
        cases b <;> exact (Option.some.inj hx).symm
      rw [hsame] at hlater
      simpa [SpawnAction.isOpened, SpawnAction.isFinalized] using hlater
    | finalized stats left =>
      cases b with
      | none => cases hx
      | some a =>
        simp only [accept] at hx
        split at hx
        · cases hx
          simp [SpawnAction.isOpened, SpawnAction.isFinalized] at hlater ⊢
          omega
        · cases hx

end Reading

/-! ### The number handed over -/

/-- The entries handed to `EnqueueEntries` since the last `BeginGeneration`. -/
def tally : ℕ → SpawnCall → ℕ
  | _, .begin _ _ _ => 0
  | n, .enqueue entries => n + entries.length
  | n, _ => n

def handed (calls : List SpawnCall) : ℕ := calls.foldl tally 0

section Calls

variable {s : Spawner}

/-- Every received entry is in the total. -/
theorem receiveEntry_total (p : AssetEntry × RequestAnswers) (hs : Open s) :
    (receiveEntry p s).1.total = s.total + 1 :=
  (enqueueEntry_handles p.1 p.2 s).settles.total
    (fun x hx => (enqueueEntry_progresses p.1 p.2 s x hx).within) hs

theorem receiveEntries_total (entries : List (AssetEntry × RequestAnswers)) (hs : Open s) :
    (forEach receiveEntry entries s).1.total = s.total + entries.length := by
  induction entries generalizing s with
  | nil => rfl
  | cons p entries ih =>
    have hrest := ih (receiveEntry_handles p s hs).1
    rw [receiveEntry_total p hs] at hrest
    simp only [forEach, seq, List.length_cons]
    omega

theorem enqueueEntries_total (entries : List (AssetEntry × RequestAnswers)) (hs : Open s) :
    (enqueueEntries entries s).1.total = s.total + entries.length := by
  rw [← receiveEntries_total entries hs, enqueueEntries, if_pos hs.2]
  rfl

/-- **How one call changes the number handed over**: while a generation is open, it is the total. -/
theorem call_tally (call : SpawnCall) {n : ℕ} (hI : Consistent s)
    (hn : s.activeTransaction = true → n = s.total) (ht : (call.op s).1.activeTransaction = true) :
    tally n call = (call.op s).1.total := by
  have hkept : (∀ x ∈ (call.op s).2, x.Within) → n = (call.op s).1.total := by
    intro hwithin
    obtain ⟨ha, htotal⟩ := (follows_within (call_keeps call s) hwithin hI).1 ht
    rw [htotal, hn ha]
  cases call with
  | begin generationId manifest completed =>
    have hnone := openGeneration_pending generationId manifest (endGeneration true completed s).1
    exact hnone.symm.trans (Nat.zero_add _).symm
  | enqueue entries =>
    rcases Bool.eq_false_or_eq_true s.activeTransaction with ha | ha
    · have htotal := enqueueEntries_total entries ⟨hI, ha⟩
      exact (congrArg (· + entries.length) (hn ha)).trans htotal.symm
    · simp [SpawnCall.op, enqueueEntries, ha] at ht
  | loaded key ans => exact hkept fun x hx => (loaded_progresses key ans s x hx).within
  | tick world turns => exact hkept fun x hx => (spawnTick_orderly world turns s x hx).within
  | finish discard completed => exact hkept (endGeneration_within discard completed s)

/-- What is shown while entries come in. -/
theorem enqueueEntries_takes (entries : List (AssetEntry × RequestAnswers)) :
    Meets (ShowsAll SpawnAction.Intake) (enqueueEntries entries) := by
  have hreceive : ∀ p, Meets (ShowsAll SpawnAction.Intake) (receiveEntry p) := by
    intro p s x hx
    rcases List.mem_append.mp hx with hx | hx
    · exact .inl ⟨p.1, List.mem_singleton.mp hx⟩
    · exact .inr (enqueueEntry_progresses p.1 p.2 s x hx)
  intro s
  unfold enqueueEntries
  split
  · exact meets_seq (showsAll_composable _) (meets_forEach (showsAll_composable _) hreceive entries)
      (fun s => (showsAll_composable _).refl s) s
  · exact (showsAll_composable _).refl s

/-- **What one call broadcasts** is exact. -/
theorem call_finalized (call : SpawnCall) (hI : Consistent s) {stats : SpawnStats}
    {left : List AssetEntry} (hmem : .finalized stats left ∈ (call.op s).2) :
    s.activeTransaction = true ∧ left = [] ∧ stats.spawnedCount + stats.skippedCount = s.total := by
  have hexact : (∀ x ∈ (call.op s).2, x.Within) → _ := fun hwithin =>
    (follows_within (call_keeps call s) hwithin hI).2 stats left hmem
  cases call with
  | begin generationId manifest completed =>
    -- opening a generation broadcasts nothing
    have hended : .finalized stats left ∈ (endGeneration true completed s).2 := by
      rcases List.mem_append.mp hmem with hmem | hmem
      · exact hmem
      · exact nomatch List.mem_singleton.mp hmem
    exact (follows_within ((endGeneration_enrolls true completed).keeps s)
      (endGeneration_within true completed s) hI).2 stats left hended
  | enqueue entries =>
    rcases enqueueEntries_takes entries s _ hmem with ⟨e, he⟩ | hprogress
    · cases he
    · exact absurd hprogress id
  | loaded key ans => exact hexact fun x hx => (loaded_progresses key ans s x hx).within
  | tick world turns => exact hexact fun x hx => (spawnTick_orderly world turns s x hx).within
  | finish discard completed => exact hexact (endGeneration_within discard completed s)

/-- **What a tick leaves**: a generation that is to be finalized when drained has not drained. -/
theorem spawnTick_leaves (world : Bool) (turns : List Turn) (s : Spawner) :
    ¬((spawnTick world turns s).1.activeTransaction = true ∧
      (spawnTick world turns s).1.finalizeWhenDrained = true ∧
      (spawnTick world turns s).1.numPendingEntries = 0) := by
  have hdrained : ∀ s, ¬((finalizeIfDrained s).1.activeTransaction = true ∧
      (finalizeIfDrained s).1.finalizeWhenDrained = true ∧
      (finalizeIfDrained s).1.numPendingEntries = 0) := by
    intro s
    unfold finalizeIfDrained
    split
    · exact fun h => nomatch h.1
    · rename_i hnot
      exact fun h => hnot h.2
  unfold spawnTick
  split
  · split
    · exact hdrained s
    · split
      · exact hdrained _
      · rename_i hqueue _
        rintro ⟨_, _, hpending⟩
        have hready := (Nat.add_eq_zero_iff.mp hpending).1
        exact hqueue (Nat.le_of_sub_eq_zero hready)
  · rename_i hnot
    exact fun h => hnot h.1

end Calls

/-! ### Runs -/

/-- What holds after every run: the invariant, and the number handed over is the total. -/
theorem run_handed {calls : List SpawnCall} {s : Spawner} {os : List SpawnAction}
    (h : exec (toStep SpawnCall.op) .start calls = some (s, os)) :
    Consistent s ∧ (s.activeTransaction = true → handed calls = s.total) := by
  refine exec_foldl (J := fun n s => Consistent s ∧ (s.activeTransaction = true → n = s.total))
    ?_ ⟨consistent_start, nofun⟩ h
  rintro n s call s' o ⟨hI, hn⟩ hstep
  have hop : call.op s = (s', o) := Option.some.inj hstep
  have hkeeps := call_keeps call s hI
  have htally := call_tally call hI hn
  rw [hop] at hkeeps htally
  exact ⟨hkeeps.1, htally⟩

/-- **Conservation.**  After every sequence of calls:

* while a generation is open, the entries handed over are those spawned, skipped or queued;
* the books accept everything shown, from no open generation: a generation is opened only when
  none is open, and its broadcast states what it received, all of it spawned or skipped;
* there have been as many broadcasts as generations have ended;
* a call that broadcasts does so with both queues empty and with exact counts, for the entries
  handed over;
* a tick and `EndGeneration(false)` discard nothing;
* a tick does not leave a generation open that is to be finalized and has nothing queued. -/
theorem spawner_conserves {calls : List SpawnCall} {s : Spawner} {os : List SpawnAction}
    (h : exec (toStep SpawnCall.op) .start calls = some (s, os)) :
    (s.activeTransaction = true →
      handed calls = s.stats.spawnedCount + s.stats.skippedCount + s.numPendingEntries) ∧
    follow accept none os = some s.account ∧
    os.countP SpawnAction.isOpened =
      os.countP SpawnAction.isFinalized + (if s.activeTransaction then 1 else 0) ∧
    (∀ (call : SpawnCall) stats left, .finalized stats left ∈ (call.op s).2 →
      left = [] ∧ stats.spawnedCount + stats.skippedCount = handed calls) ∧
    (∀ entry, (∀ world turns, .skipped entry .discarded ∉ (spawnTick world turns s).2) ∧
      ∀ completed, .skipped entry .discarded ∉ (endGeneration false completed s).2) ∧
    ∀ world turns, ¬((spawnTick world turns s).1.activeTransaction = true ∧
      (spawnTick world turns s).1.finalizeWhenDrained = true ∧
      (spawnTick world turns s).1.numPendingEntries = 0) := by
  obtain ⟨hI, hhanded⟩ := run_handed h
  have hbooks : follow accept none os = some s.account :=
    (exec_meets composable call_keeps h consistent_start).2
  refine ⟨hhanded, hbooks, ?_, ?_, ?_, fun world turns => spawnTick_leaves world turns s⟩
  · have hcounts := follow_counts hbooks
    rw [Option.toList_none, List.length_nil, Nat.add_zero] at hcounts
    rw [hcounts, Spawner.account]
    split <;> rfl
  · intro call stats left hmem
    obtain ⟨ha, hleft, hsum⟩ := call_finalized call hI hmem
    exact ⟨hleft, hsum.trans (hhanded ha).symm⟩
  · intro entry
    refine ⟨fun world turns hmem => ?_, fun completed hmem => ?_⟩
    · exact SpawnAction.Orderly.not_discarded (spawnTick_orderly world turns s _ hmem)
    · exact SpawnAction.Orderly.not_discarded (endGeneration_orderly completed s _ hmem)

/-- Two known categories, one of them without a path. -/
def woodManifest : TMap ManifestAssetEntry where
  entries := [("tree", ⟨some "/Game/Tree", 1, false, false, "Tree"⟩),
    ("rock", ⟨none, 1, false, false, "Rock"⟩)]
  distinct := by decide

def woodEntry (category : String) : AssetEntry := ⟨category, ⟨⟨0, 0⟩, 0, 1⟩, false, []⟩

/-- The engine loads asynchronously. -/
def loadLater : RequestAnswers := ⟨true, none, true⟩

/-- Two trees, a rock and an entry of an unknown category; the budget allows one entry. -/
def woodCalls : List SpawnCall :=
  [.begin "gen-1" (some woodManifest) fun _ => true,
    .enqueue [(woodEntry "tree", loadLater), (woodEntry "rock", loadLater),
      (woodEntry "cloud", loadLater), (woodEntry "Tree", loadLater)],
    .loaded "tree" ⟨some (.staticMesh 0), none⟩,
    .finish false fun _ => true,
    .tick true [⟨⟨none, true, true, true, true, true⟩, []⟩]]

theorem spawner_conserves_wood :
    ∃ s os, exec (toStep SpawnCall.op) .start woodCalls = some (s, os) ∧
      s.activeTransaction = true ∧ s.finalizeWhenDrained = true ∧ s.stats.spawnedCount = 1 ∧
      s.stats.skippedCount = 2 ∧ s.numPendingEntries = 1 ∧ handed woodCalls = 1 + 2 + 1 ∧
      os.countP SpawnAction.isOpened = os.countP SpawnAction.isFinalized + 1 := by
  have hrun : (exec (toStep SpawnCall.op) .start woodCalls).isSome = true := rfl
  obtain ⟨⟨s, os⟩, h⟩ := Option.isSome_iff_exists.mp hrun
  have hstate : (exec (toStep SpawnCall.op) .start woodCalls).map (fun p =>
      (p.1.activeTransaction, p.1.finalizeWhenDrained, p.1.stats.spawnedCount,
        p.1.stats.skippedCount, p.1.numPendingEntries)) = some (true, true, 1, 2, 1) := by
    decide +kernel
  rw [h] at hstate
  simp only [Option.map_some, Option.some.injEq, Prod.mk.injEq] at hstate
  obtain ⟨ha, hflag, hspawned, hskipped, hpending⟩ := hstate
  obtain ⟨hsum, _, hcount, _⟩ := spawner_conserves h
  refine ⟨s, os, h, ha, hflag, hspawned, hskipped, hpending, ?_, ?_⟩
  · rw [hsum ha, hspawned, hskipped, hpending]
  · rw [hcount, if_pos ha]

end AetherForge.Plugin
