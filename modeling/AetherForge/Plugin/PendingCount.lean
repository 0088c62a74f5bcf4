import AetherForge.Plugin.Conservation

/-!
# The published pending count

`Stats.PendingCount` is a copy of the number of entries still queued, and each operation refreshes
it for itself.  A failed load drops the entries that waited for it and returns before the copy is
refreshed.

* `Spawner.Accurate` — the copy is the number of entries queued;
* `Refreshes` — the copy has been refreshed, or neither it nor the number has changed;
* `FailsWaiting` — a failed load for which entries wait;
* `pending_accurate_iff` — the copy is accurate throughout a run exactly if no call of it is one.
-/

namespace AetherForge.Plugin

open Operation Transition

/-- `Stats.PendingCount` is the number of entries still queued. -/
def Spawner.Accurate (s : Spawner) : Prop := s.stats.pendingCount = s.pendingEntries.length

/-- A load that fails while entries wait for it. -/
def FailsWaiting (s : Spawner) : SpawnCall → Prop
  | .loaded key ans => ∃ rt, s.categories.find key = some rt ∧ ans.loaded rt = none ∧
      rt.waitingEntries ≠ []
  | _ => False

/-- The copy has been refreshed, or nothing has changed that it depends on. -/
def Refreshes (s t : Spawner) : Prop :=
  t.Accurate ∨ (t.stats.pendingCount = s.stats.pendingCount ∧
    t.numPendingEntries = s.numPendingEntries)

section Refreshing

variable {s t : Spawner}

theorem accurate_iff : s.Accurate ↔ s.stats.pendingCount = s.numPendingEntries := by
  rw [Spawner.Accurate, pendingEntries_length]

theorem Refreshes.accurate (h : Refreshes s t) (hs : s.Accurate) : t.Accurate := by
  rcases h with h | ⟨hcount, hpending⟩
  · exact h
  · rw [accurate_iff] at hs ⊢
    rw [hcount, hpending, hs]

theorem refreshes_refl (s : Spawner) : Refreshes s s := .inr ⟨rfl, rfl⟩

/-- A change that leaves nothing queued, with the copy reset. -/
theorem accurate_zero (hcount : t.stats.pendingCount = 0) (hpending : t.numPendingEntries = 0) :
    t.Accurate := accurate_iff.mpr (hcount.trans hpending.symm)

theorem publishPending_accurate (s : Spawner) : (publishPending s).1.Accurate :=
  accurate_iff.mpr rfl

theorem finalizeGeneration_accurate (s : Spawner) : (finalizeGeneration s).1.Accurate :=
  accurate_zero rfl rfl

theorem finalizeIfDrained_refreshes (s : Spawner) : Refreshes s (finalizeIfDrained s).1 := by
  unfold finalizeIfDrained
  split
  · exact .inl (finalizeGeneration_accurate s)
  · exact refreshes_refl s

/-! ### Calls that refresh the copy -/

theorem endGeneration_refreshes (discard : Bool) (completed : ℕ → Bool) (s : Spawner) :
    Refreshes s (endGeneration discard completed s).1 := by
  unfold endGeneration
  split
  · split
    · exact .inl (finalizeGeneration_accurate _)
    · split
      · exact .inl (finalizeGeneration_accurate s)
      · -- only the flag is set
        exact .inr ⟨rfl, rfl⟩
  · exact refreshes_refl s

theorem beginGeneration_refreshes (generationId : String)
    (manifest : Option (TMap ManifestAssetEntry)) (completed : ℕ → Bool) (s : Spawner) :
    Refreshes s (beginGeneration generationId manifest completed s).1 :=
  .inl (accurate_zero rfl (openGeneration_pending generationId manifest _))

theorem enqueueEntries_refreshes (entries : List (AssetEntry × RequestAnswers)) (s : Spawner) :
    Refreshes s (enqueueEntries entries s).1 := by
  unfold enqueueEntries
  split
  · exact .inl (publishPending_accurate _)
  · exact refreshes_refl s

theorem spawnTick_refreshes (world : Bool) (turns : List Turn) (s : Spawner) :
    Refreshes s (spawnTick world turns s).1 := by
  unfold spawnTick
  split
  · split
    · exact finalizeIfDrained_refreshes s
    · split
      · exact .inl ((finalizeIfDrained_refreshes _).accurate (publishPending_accurate _))
      · exact refreshes_refl s
  · exact refreshes_refl s

/-! ### Completed loads -/

/-- **What waits after a category has been emptied.** -/
theorem waiting_emptied {key : String} {rt : CategoryRuntime}
    (h : s.categories.find key = some rt) {f : CategoryRuntime → CategoryRuntime}
    (hf : (f rt).waitingEntries = []) :
    (s.categories.modify key f).sumBy (·.waitingEntries.length) + rt.waitingEntries.length =
      s.categories.sumBy (·.waitingEntries.length) := by
  obtain ⟨before, after, hvalues, hchanged⟩ := s.categories.values_modify f h
  simp only [FoldedMap.sumBy, hvalues, hchanged, List.map_append, List.map_cons, List.sum_append,
    List.sum_cons, hf, List.length_nil]
  omega

/-- A failed load drops what waited for it, and leaves the copy as it was. -/
theorem loaded_failed {key : String} {ans : LoadAnswers} {rt : CategoryRuntime}
    (hfind : s.categories.find key = some rt) (hloaded : ans.loaded rt = none) :
    (onCategoryAssetLoaded key ans s).1.stats.pendingCount = s.stats.pendingCount ∧
      (onCategoryAssetLoaded key ans s).1.numPendingEntries + rt.waitingEntries.length =
        s.numPendingEntries := by
  have hwaiting := waiting_emptied hfind (f := .failed) rfl
  simp only [onCategoryAssetLoaded, hfind, hloaded, Spawner.numPendingEntries]
  exact ⟨trivial, by omega⟩

/-- A load that succeeds moves what waited for it into the queue. -/
theorem loaded_promoted {key : String} {ans : LoadAnswers} {rt : CategoryRuntime} {asset : Asset}
    (hhead : s.readyQueueHead ≤ s.readyQueue.length) (hfind : s.categories.find key = some rt)
    (hloaded : ans.loaded rt = some asset) :
    (onCategoryAssetLoaded key ans s).1.stats.pendingCount = s.stats.pendingCount ∧
      (onCategoryAssetLoaded key ans s).1.numPendingEntries = s.numPendingEntries := by
  have hwaiting := waiting_emptied hfind (f := .promoted asset) rfl
  simp only [onCategoryAssetLoaded, hfind, hloaded, Spawner.numPendingEntries, List.length_append]
  exact ⟨trivial, by omega⟩

theorem loaded_refreshes {key : String} {ans : LoadAnswers} (hI : Consistent s)
    (h : ¬FailsWaiting s (.loaded key ans)) : Refreshes s (onCategoryAssetLoaded key ans s).1 := by
  cases hfind : s.categories.find key with
  | none =>
    simp only [onCategoryAssetLoaded, hfind]
    exact refreshes_refl s
  | some rt =>
    cases hloaded : ans.loaded rt with
    | none =>
      have hnone : rt.waitingEntries = [] := by
        by_contra hwaiting
        exact h ⟨rt, hfind, hloaded, hwaiting⟩
      obtain ⟨hcount, hpending⟩ := loaded_failed hfind hloaded
      rw [hnone, List.length_nil, Nat.add_zero] at hpending
      exact .inr ⟨hcount, hpending⟩
    | some asset => exact .inr (loaded_promoted hI.head hfind hloaded)

/-! ### Runs -/

/-- **One call** keeps the copy accurate exactly if it is no failed load for which entries wait. -/
theorem call_accurate_iff (call : SpawnCall) (hI : Consistent s) (hs : s.Accurate) :
    (call.op s).1.Accurate ↔ ¬FailsWaiting s call := by
  constructor
  · intro ht hfails
    cases call with
    | loaded key ans =>
      obtain ⟨rt, hfind, hloaded, hwaiting⟩ := hfails
      obtain ⟨hcount, hpending⟩ := loaded_failed hfind hloaded
      have hlength := List.length_pos_iff.mpr hwaiting
      rw [accurate_iff] at hs ht
      simp only [SpawnCall.op] at ht
      omega
    | begin | enqueue | tick | finish => exact hfails
  · intro hfails
    refine Refreshes.accurate ?_ hs
    cases call with
    | begin generationId manifest completed =>
      exact beginGeneration_refreshes generationId manifest completed s
    | enqueue entries => exact enqueueEntries_refreshes entries s
    | loaded key ans => exact loaded_refreshes hI hfails
    | tick world turns => exact spawnTick_refreshes world turns s
    | finish discard completed => exact endGeneration_refreshes discard completed s

end Refreshing

/-- **The published count**: it is the number of entries still queued after each call of a sequence
exactly if no call of it is a load that fails while entries wait for it. -/
theorem pending_accurate_iff (calls : List SpawnCall) :
    (∀ pre s os, pre <+: calls → exec (toStep SpawnCall.op) .start pre = some (s, os) →
      s.Accurate) ↔
      Along (toStep SpawnCall.op) (fun s call => ¬FailsWaiting s call) .start calls := by
  obtain ⟨t, os, hrun⟩ := exec_toStep SpawnCall.op .start calls
  refine along_iff (I := Consistent) ?_ ?_ consistent_start (accurate_zero rfl rfl) hrun
  · intro s call s' o hI hstep
    have hkept := (call_enrolls call s hI).1
    rwa [Option.some.inj hstep] at hkept
  · intro s call s' o hI hs hstep
    have hcall := call_accurate_iff call hI hs
    rwa [Option.some.inj hstep] at hcall

/-- The load of the trees fails while one of them waits, and nothing else is queued. -/
def failedLoadCalls : List SpawnCall :=
  [.begin "gen-1" (some woodManifest) fun _ => true, .enqueue [(woodEntry "tree", loadLater)],
    .loaded "tree" ⟨none, none⟩, .tick true [⟨⟨none, true, true, true, true, true⟩, []⟩]]

/-- **A failed load leaves the copy behind**: one entry is said to be pending and none is queued, in
an open generation and even after another tick. -/
theorem failed_load_uncounted :
    ∃ s os, exec (toStep SpawnCall.op) .start failedLoadCalls = some (s, os) ∧
      s.activeTransaction = true ∧ s.stats.pendingCount = 1 ∧ s.pendingEntries = [] ∧
      ¬s.Accurate := by
  have hrun : (exec (toStep SpawnCall.op) .start failedLoadCalls).map (fun p =>
      (p.1.activeTransaction, p.1.stats.pendingCount, p.1.pendingEntries)) =
      some (true, 1, []) := by
    decide +kernel
  obtain ⟨⟨s, os⟩, hexec, hstate⟩ := Option.map_eq_some_iff.mp hrun
  simp only [Prod.mk.injEq] at hstate
  obtain ⟨hactive, hcount, hpending⟩ := hstate
  refine ⟨s, os, hexec, hactive, hcount, hpending, ?_⟩
  rw [Spawner.Accurate, hcount, hpending]
  decide

end AetherForge.Plugin
