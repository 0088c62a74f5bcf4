import AetherForge.Plugin.Punctuality

/-!
# Late callbacks

A callback carries only the key of its category, and is called on whatever category has that key in
the open generation.  A generation that ends early cancels the handles whose load has not completed;
the callback of a load that has completed is still to come, and is delivered in a later generation.

* `Settled` — the category is already what the callback would make of it;
* `loaded_unchanged_iff` — a callback changes nothing exactly if it finds none of its category, or a
  settled one;
* `late_callbacks_iff` — no callback leaks in a run in which no early end overtakes one; and in
  every run, exactly if each late one finds none of its category, or a settled one.
-/

namespace AetherForge.Plugin

open Operation Transition

/-! ### What a callback leaves alone -/

/-- What a callback finds is what it would set: where neither the handle nor the path gives an
asset, the category is marked as failed; else it holds the very asset; and nothing waits. -/
def CategoryRuntime.Settled (ans : LoadAnswers) (rt : CategoryRuntime) : Prop :=
  rt.waitingEntries = [] ∧
    match ans.loaded rt with
    | none => rt.loadFailed = true
    | some asset => rt.loadedAsset = some asset

/-- The spawner has no such category, or a settled one. -/
def Settled (key : String) (ans : LoadAnswers) (s : Spawner) : Prop :=
  ∀ rt, s.categories.find key = some rt → rt.Settled ans

theorem failed_eq_self_iff {rt : CategoryRuntime} :
    rt.failed = rt ↔ rt.loadFailed = true ∧ rt.waitingEntries = [] := by
  cases rt
  simp [CategoryRuntime.failed, eq_comm]

theorem promoted_eq_self_iff {rt : CategoryRuntime} {asset : Asset} :
    rt.promoted asset = rt ↔ rt.loadedAsset = some asset ∧ rt.waitingEntries = [] := by
  cases rt
  simp [CategoryRuntime.promoted, eq_comm]

/-- **A callback changes nothing** exactly if what it finds is settled. -/
theorem loaded_unchanged_iff (key : String) (ans : LoadAnswers) (s : Spawner) :
    (onCategoryAssetLoaded key ans s).1 = s ↔ Settled key ans s := by
  cases hfind : s.categories.find key with
  | none =>
    simp only [onCategoryAssetLoaded, hfind, true_iff]
    intro rt hrt
    rw [hfind] at hrt
    cases hrt
  | some rt =>
    have hsettled : Settled key ans s ↔ rt.Settled ans := by
      rw [Settled, hfind]
      simp
    rw [hsettled, CategoryRuntime.Settled]
    cases hloaded : ans.loaded rt with
    | none =>
      simp only [onCategoryAssetLoaded, hfind, hloaded]
      constructor
      · intro hsame
        have hcategories := congrArg Spawner.categories hsame
        rw [FoldedMap.modify_eq_self_iff _ _ hfind, failed_eq_self_iff] at hcategories
        exact hcategories.symm
      · rintro ⟨hwaiting, hfailed⟩
        rw [(FoldedMap.modify_eq_self_iff _ _ hfind).mpr
          (failed_eq_self_iff.mpr ⟨hfailed, hwaiting⟩), hwaiting]
        rfl
    | some asset =>
      simp only [onCategoryAssetLoaded, hfind, hloaded]
      constructor
      · intro hsame
        have hcategories := congrArg Spawner.categories hsame
        rw [FoldedMap.modify_eq_self_iff _ _ hfind, promoted_eq_self_iff] at hcategories
        exact hcategories.symm
      · rintro ⟨hwaiting, hasset⟩
        rw [(FoldedMap.modify_eq_self_iff _ _ hfind).mpr
          (promoted_eq_self_iff.mpr ⟨hasset, hwaiting⟩), hwaiting, List.append_nil]

/-! ### Runs -/

/-- A delivered callback shows what it does to the spawner. -/
def StreamAction.Genuine : StreamAction → Prop
  | .spawner _ => True
  | .delivered load ans _ before after => after = (onCategoryAssetLoaded load.key ans before).1

section Genuine

theorem genuine_composable : Composable
    (ShowsAll StreamAction.Genuine : Streaming → List StreamAction → Streaming → Prop) :=
  showsAll_composable _

theorem ofSpawner_genuine (f : SpawnOp) : Meets (ShowsAll StreamAction.Genuine) (ofSpawner f) := by
  intro e x hx
  obtain ⟨a, -, rfl⟩ := List.mem_map.mp hx
  trivial

theorem deliver_genuine (handle : ℕ) (ans : LoadAnswers) :
    Meets (ShowsAll StreamAction.Genuine) (deliver handle ans) := by
  intro e
  unfold deliver
  split
  · exact genuine_composable.refl e
  · refine meets_seq genuine_composable ?_ (ofSpawner_genuine _) e
    intro e x hx
    rw [List.mem_singleton.mp hx]
    rfl

theorem event_genuine (event : StreamEvent) : Meets (ShowsAll StreamAction.Genuine) event.op := by
  cases event with
  | begin generationId manifest => exact fun e => ofSpawner_genuine _ e
  | enqueue entries => exact ofSpawner_genuine _
  | complete handle => exact fun e => genuine_composable.refl e
  | deliver handle ans => exact deliver_genuine handle ans
  | collect key => exact fun e => genuine_composable.refl e
  | tick world turns =>
    have hdrain : ∀ turns, Meets (ShowsAll StreamAction.Genuine) (streamDrain turns) :=
      streamDrain_meets genuine_composable (fun e _ _ _ => ofSpawner_genuine _ e) deliver_genuine
    exact streamTick_meets genuine_composable hdrain (ofSpawner_genuine _) (ofSpawner_genuine _)
      (ofSpawner_genuine _) world turns
  | finish discard => exact fun e => ofSpawner_genuine _ e

end Genuine

/-- The callbacks that are delivered in a later generation than the one that requested their load
leave the spawner as it is. -/
def NoLeak (past : List StreamAction) : Prop :=
  ∀ load ans generation before after,
    .delivered load ans generation before after ∈ past → load.generation < generation →
      after = before

/-- Where every callback is in time, there is none to leak. -/
theorem noLeak_of_inTime {past : List StreamAction} (h : ∀ x ∈ past, x.InTime) : NoLeak past := by
  intro load ans generation before after hmem hlate
  have htime : load.generation = generation := h _ hmem
  exact absurd htime hlate.ne

/-- **Late callbacks.**  No callback leaks into a later generation in a run in which no generation
is ended early while the callback of a completed load is to come.  In any run, none leaks exactly
if each late one finds no category of its key, or one that is already what the callback would make
of it. -/
theorem late_callbacks_iff {events : List StreamEvent} {e : Streaming} {past : List StreamAction}
    (h : exec (toStep StreamEvent.op) .start events = some (e, past)) :
    (Along (toStep StreamEvent.op) (fun e event => ¬Overtakes e event) .start events →
      NoLeak past) ∧
    (NoLeak past ↔
      ∀ load ans generation before after,
        .delivered load ans generation before after ∈ past → load.generation < generation →
          Settled load.key ans before) := by
  have hgenuine := exec_meets genuine_composable event_genuine h
  refine ⟨fun hruns => noLeak_of_inTime (run_callbacksInTime hruns h), ?_, ?_⟩
  · intro hunchanged load ans generation before after hmem hlate
    have hafter : after = (onCategoryAssetLoaded load.key ans before).1 := hgenuine _ hmem
    rw [← loaded_unchanged_iff, ← hafter]
    exact hunchanged load ans generation before after hmem hlate
  · intro hsettled load ans generation before after hmem hlate
    have hafter : after = (onCategoryAssetLoaded load.key ans before).1 := hgenuine _ hmem
    rw [hafter, loaded_unchanged_iff]
    exact hsettled load ans generation before after hmem hlate

/-- Trees from one path, in one generation. -/
def moorManifest (path : String) : TMap ManifestAssetEntry where
  entries := [("tree", ⟨some path, 1, false, false, "Tree"⟩)]
  distinct := List.nodup_singleton _

def moorEntry : AssetEntry := ⟨"tree", ⟨⟨0, 0⟩, 0, 1⟩, false, []⟩

/-- The load of the oaks completes, and its callback is delivered after the next generation has been
opened. -/
def moorEvents (manifest : Option (TMap ManifestAssetEntry)) : List StreamEvent :=
  [.begin "gen-1" (some (moorManifest "/Game/Oak")), .enqueue [moorEntry], .complete 0,
    .begin "gen-2" manifest, .enqueue [moorEntry], .deliver 0 ⟨none, none⟩]

/-- What was delivered late. -/
def StreamAction.late : StreamAction → Option (Spawner × Spawner)
  | .spawner _ => none
  | .delivered load _ generation before after =>
    if load.generation < generation then some (before, after) else none

theorem late_eq_some_iff {x : StreamAction} {before after : Spawner} :
    x.late = some (before, after) ↔ ∃ load ans generation,
      x = .delivered load ans generation before after ∧ load.generation < generation := by
  constructor
  · intro h
    cases x with
    | spawner a => cases h
    | delivered load ans generation before' after' =>
      obtain ⟨hlate, heq⟩ := Option.ite_none_right_eq_some.mp h
      cases heq
      exact ⟨load, ans, generation, rfl, hlate⟩
  · rintro ⟨load, ans, generation, rfl, hlate⟩
    exact if_pos hlate

/-- The heath is left while its ferns are loading: their load is cancelled, and nothing is late.
The moor is left when its oaks have been loaded: their callback is late, and where the next
generation has no trees, it finds nothing. -/
theorem late_callbacks_iff_moor :
    (∃ e past, exec (toStep StreamEvent.op) .start heathCut = some (e, past) ∧ NoLeak past) ∧
    ∃ e past, exec (toStep StreamEvent.op) .start (moorEvents none) = some (e, past) ∧
      (∃ load ans generation before after,
        .delivered load ans generation before after ∈ past ∧ load.generation < generation) ∧
      NoLeak past := by
  constructor
  · have hruns : Along (toStep StreamEvent.op) (fun e event => ¬Overtakes e event) .start
        heathCut := by
      decide +kernel
    have hsome : (exec (toStep StreamEvent.op) .start heathCut).isSome := by decide +kernel
    obtain ⟨⟨e, past⟩, h⟩ := Option.isSome_iff_exists.mp hsome
    exact ⟨e, past, h, (late_callbacks_iff h).1 hruns⟩
  have hrun : (exec (toStep StreamEvent.op) .start (moorEvents none)).map (fun p =>
      (p.2.filterMap StreamAction.late).map fun q => q.1.categories.entries.isEmpty) =
        some [true] := by
    decide +kernel
  obtain ⟨⟨e, past⟩, hexec, hlate⟩ := Option.map_eq_some_iff.mp hrun
  obtain ⟨⟨before, after⟩, hshown, -⟩ := List.map_eq_singleton_iff.mp hlate
  have hmem : (before, after) ∈ past.filterMap StreamAction.late := hshown ▸ List.mem_cons_self
  obtain ⟨x, hx, hsome⟩ := List.mem_filterMap.mp hmem
  obtain ⟨load, ans, generation, rfl, hlater⟩ := late_eq_some_iff.mp hsome
  refine ⟨e, past, hexec, ⟨load, ans, generation, before, after, hx, hlater⟩, ?_⟩
  refine (late_callbacks_iff hexec).2.mpr
    fun load' ans' generation' before' after' hx' hlater' => ?_
  have hmem' : (before', after') ∈ past.filterMap StreamAction.late :=
    List.mem_filterMap.mpr ⟨_, hx', late_eq_some_iff.mpr ⟨load', ans', generation', rfl, hlater'⟩⟩
  have hempty : before'.categories.entries.isEmpty ∈ [true] :=
    hlate ▸ List.mem_map_of_mem (f := fun q : Spawner × Spawner => q.1.categories.entries.isEmpty)
      hmem'
  intro rt hfind
  rw [FoldedMap.find, List.isEmpty_iff.mp (List.mem_singleton.mp hempty)] at hfind
  cases hfind

/-- The oaks of a generation that was ended early leave the pines of the next one failed, and the
tree that waited for them is dropped. -/
theorem late_callback_leaks :
    ∃ e past load ans generation before after,
      exec (toStep StreamEvent.op) .start (moorEvents (some (moorManifest "/Game/Pine"))) =
        some (e, past) ∧
      .delivered load ans generation before after ∈ past ∧ load.generation < generation ∧
      (before.categories.find "tree").map (fun rt => (rt.loadFailed, rt.waitingEntries)) =
        some (false, [moorEntry]) ∧
      (after.categories.find "tree").map (fun rt => (rt.loadFailed, rt.waitingEntries)) =
        some (true, []) ∧
      after ≠ before := by
  have hrun : (exec (toStep StreamEvent.op) .start
      (moorEvents (some (moorManifest "/Game/Pine")))).map (fun p =>
        (p.2.filterMap StreamAction.late).map fun q =>
          ((q.1.categories.find "tree").map (fun rt => (rt.loadFailed, rt.waitingEntries)),
            (q.2.categories.find "tree").map (fun rt => (rt.loadFailed, rt.waitingEntries)))) =
      some [(some (false, [moorEntry]), some (true, []))] := by
    decide +kernel
  obtain ⟨⟨e, past⟩, hexec, hlate⟩ := Option.map_eq_some_iff.mp hrun
  obtain ⟨⟨before, after⟩, hshown, hpair⟩ := List.map_eq_singleton_iff.mp hlate
  obtain ⟨hbefore, hafter⟩ := Prod.mk.inj hpair
  have hmem : (before, after) ∈ past.filterMap StreamAction.late := hshown ▸ List.mem_cons_self
  obtain ⟨x, hx, hsome⟩ := List.mem_filterMap.mp hmem
  obtain ⟨load, ans, generation, rfl, hlater⟩ := late_eq_some_iff.mp hsome
  refine ⟨e, past, load, ans, generation, before, after, hexec, hx, hlater, hbefore, hafter, ?_⟩
  rintro rfl
  rw [hbefore] at hafter
  cases hafter

end AetherForge.Plugin
