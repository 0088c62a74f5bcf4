import Mathlib.Algebra.BigOperators.Ring.Finset
import AetherForge.Backend.StreamGrammar

/-!
# What a stream says

The plan, the chunks and the complete are computed from one clamped recipe and one placement,
each in its own way: a map filled from the recipe, the slices of the chunk loop, the length of
the placement.

* `hardCaps_iff` — the caps: no count of an accepted recipe exceeds its category's cap, and the
  total (hence every announced total) stays within the global cap exactly when the lifts of
  small counts are covered; `crowdedRecipe` exceeds it;
* `stream_agreement` — whenever a complete is handed over, all views of the stream coincide.
-/

namespace AetherForge

open Go Interaction Slicing

/-! ### Where a message comes from -/

/-- The surroundings answered with these manifests and recipes only. -/
theorem allowed_of_answers {evs : List (Event Eff Resp)} {okMan : Manifest → Prop}
    {okRecipe : Recipe → Prop} (hman : ∀ man, ⟨Eff.storeSnapshot, man⟩ ∈ evs → okMan man)
    (hrecipe : ∀ r, ⟨Eff.llmReturn, .ok (some r)⟩ ∈ evs → okRecipe r) :
    (pipeline okMan okRecipe).Allowed evs := by
  intro ev hev
  show AnswersFrom _ _ ev
  unfold AnswersFrom
  split
  · exact hman _ hev
  · exact hrecipe _ hev
  · trivial

/-- The messages of a run that hands over a plan or a complete are those of a full stream, or
of its beginning; its manifest and its recipe are among the answers the run got. -/
theorem exists_stream_of_mem {o : Orchestrator} {req : Generate} {evs : List (Event Eff Resp)}
    {q : Run Unit} (ht : Trace (run o req) evs q) {m : Message} (hm : m ∈ sentMessages evs)
    (hne : ∀ e, m ≠ .error e) :
    ∃ man recipe seed entries elapsed llmElapsed,
      ⟨Eff.storeSnapshot, man⟩ ∈ evs ∧ ⟨Eff.llmReturn, .ok (some recipe)⟩ ∈ evs ∧
      ValidRecipe man recipe ∧ SeedFor req seed ∧
      o.place (clampCounts recipe) seed req.bounds man = .ok entries ∧
      sentMessages evs <+: streamMessages o req (clampCounts recipe) seed entries elapsed llmElapsed
      := by
  have hall : (pipeline (fun man => ⟨Eff.storeSnapshot, man⟩ ∈ evs)
      (fun r => ⟨Eff.llmReturn, .ok (some r)⟩ ∈ evs)).Allowed evs :=
    allowed_of_answers (fun _ h => h) fun _ h => h
  obtain ⟨ms, hms, hpre⟩ := (run_concludes o req).within evs q hall ht
  rcases hms with ⟨code, text, rfl⟩ |
    ⟨man, recipe, seed, entries, elapsed, llmElapsed, hman, hrecipe, hvalid, hseed, hplace, rfl⟩
  · exact absurd (List.mem_singleton.mp (hpre.subset hm)) (hne _)
  · exact ⟨man, recipe, seed, entries, elapsed, llmElapsed, hman, hrecipe, hvalid, hseed, hplace,
      hpre⟩

/-! ### The plan -/

section PlanCategories

variable {items : List CategoryRecipe} {m : GoMap ℤ}

/-- The loop that fills `plan.Categories`, from any map. -/
def fillCategories (m : GoMap ℤ) (items : List CategoryRecipe) : GoMap ℤ :=
  items.foldl (fun m it => m.set it.category it.count) m

theorem fillCategories_get?_of_not_mem {k : String} (hk : k ∉ items.map (·.category)) :
    (fillCategories m items).get? k = m.get? k := by
  induction items generalizing m with
  | nil => rfl
  | cons it rest ih =>
    rw [List.map_cons, List.mem_cons, not_or] at hk
    rw [fillCategories, List.foldl_cons]
    exact (ih hk.2).trans (GoMap.get?_set_of_ne m it.count hk.1)

theorem fillCategories_get?_of_mem (hnd : (items.map (·.category)).Nodup) {it : CategoryRecipe}
    (hit : it ∈ items) : (fillCategories m items).get? it.category = some it.count := by
  induction items generalizing m with
  | nil => cases hit
  | cons it₀ rest ih =>
    rw [List.map_cons, List.nodup_cons] at hnd
    rw [fillCategories, List.foldl_cons]
    rcases List.mem_cons.mp hit with rfl | hrest
    · exact (fillCategories_get?_of_not_mem hnd.1).trans (GoMap.get?_set_self _ _ _)
    · exact ih hnd.2 hrest

theorem fillCategories_total (hnd : (items.map (·.category)).Nodup)
    (hnew : ∀ it ∈ items, m.get? it.category = none) :
    (fillCategories m items).total = m.total + totalCount items := by
  induction items generalizing m with
  | nil => simp [fillCategories, totalCount]
  | cons it rest ih =>
    rw [List.map_cons, List.nodup_cons] at hnd
    obtain ⟨hit, hrest⟩ := List.forall_mem_cons.mp hnew
    have hnew' : ∀ it' ∈ rest, (m.set it.category it.count).get? it'.category = none := by
      intro it' hit'
      have hne : it'.category ≠ it.category := fun h =>
        hnd.1 (h ▸ List.mem_map_of_mem hit')
      rw [GoMap.get?_set_of_ne m it.count hne]
      exact hrest it' hit'
    have hfill := ih hnd.2 hnew'
    rw [GoMap.total_set m it.count hit] at hfill
    rw [fillCategories, List.foldl_cons]
    refine hfill.trans ?_
    rw [totalCount, totalCount, List.map_cons, List.sum_cons, add_assoc]

/-- **The plan's map** holds each item's count, and nothing else. -/
theorem planCategories_getD (hnd : (items.map (·.category)).Nodup)
    (hnn : ∀ it ∈ items, 0 ≤ it.count) (k : String) :
    (planCategories items).getD k 0 = ((itemCategories items).count k : ℤ) := by
  by_cases hk : k ∈ items.map (·.category)
  · obtain ⟨it, hit, rfl⟩ := List.mem_map.mp hk
    rw [count_itemCategories_of_mem hnd hit, Int.toNat_of_nonneg (hnn it hit), GoMap.getD]
    exact congrArg (Option.getD · 0) (fillCategories_get?_of_mem hnd hit)
  · rw [count_itemCategories_of_not_mem hk, GoMap.getD]
    exact congrArg (Option.getD · 0) (fillCategories_get?_of_not_mem hk)

theorem planCategories_total (hnd : (items.map (·.category)).Nodup) :
    (planCategories items).total = totalCount items := by
  have h := fillCategories_total (m := .make ∅) hnd fun _ _ => rfl
  rwa [show (GoMap.make ∅ : GoMap ℤ).total = 0 from rfl, zero_add] at h

end PlanCategories

/-- A placement has as many entries as the counts add up to. -/
theorem place_length_eq_totalCount {D : Draws} {recipe : Recipe} {seed : ℤ} {bounds : Bounds}
    {man : Manifest} {entries : List AssetEntry}
    (hnn : ∀ it ∈ recipe.items.elems, 0 ≤ it.count)
    (h : place D recipe seed bounds man = .ok entries) :
    (entries.length : ℤ) = totalCount recipe.items.elems := by
  rw [place_length h, Nat.cast_list_sum, List.map_map, totalCount]
  refine congrArg List.sum (List.map_congr_left fun it hit => ?_)
  exact Int.toNat_of_nonneg (hnn it hit)

/-! ### The hard caps -/

/-- Whatever else the surroundings answer, no run whose model returns only this recipe announces
more assets than the global cap. -/
def PlansWithinCap (r : Recipe) : Prop :=
  ∀ (D : Draws) (o : Orchestrator), o.place = place D → ∀ req evs q, Trace (run o req) evs q →
    (∀ r', ⟨Eff.llmReturn, .ok (some r')⟩ ∈ evs → r' = r) →
    ∀ p, .plan p ∈ sentMessages evs → p.totalAssets ≤ MaxAssetsTotal

/-- The caps on what is generated for a recipe. -/
structure HardCaps (r : Recipe) : Prop where
  category : ∀ it ∈ (clampCounts r).items.elems, it.count ≤ MaxAssetsPerCategory
  total : totalCount (clampCounts r).items.elems ≤ MaxAssetsTotal
  plans : PlansWithinCap r

/-- A capped total caps every plan. -/
theorem plansWithinCap_of_total_le {r : Recipe}
    (h : totalCount (clampCounts r).items.elems ≤ MaxAssetsTotal) : PlansWithinCap r := by
  intro D o ho req evs q ht hanswers p hp
  obtain ⟨man, recipe, seed, entries, elapsed, llmElapsed, _, hrecipe, hvalid, _, hplace, hpre⟩ :=
    exists_stream_of_mem ht hp (by simp)
  obtain rfl := hanswers recipe hrecipe
  have hmem := hpre.subset hp
  rw [streamMessages, List.mem_cons, List.mem_append, List.mem_singleton] at hmem
  -- the only plan of the stream is its first message
  rcases hmem with hplan | hchunk | hcomplete
  · cases hplan
    rw [ho] at hplace
    exact (place_length_eq_totalCount (clampCounts_count_nonneg hvalid.nonneg) hplace).trans_le h
  · obtain ⟨_, _, heq⟩ := List.mem_map.mp hchunk
    cases heq
  · cases hcomplete

/-- **Hard caps.**  For an accepted recipe the caps hold exactly when the lifts of small counts
back to `1` do not outweigh the truncation. -/
theorem hardCaps_iff (r : Recipe) (man : Manifest) (h : validateRecipe (some r) man = none) :
    HardCaps r ↔ LiftsCovered r := by
  have hvalid := (validateRecipe_eq_none_iff r man).mp h
  have htotal := clampCounts_total_le_iff hvalid.nonneg
  constructor
  · intro hcaps
    exact htotal.mp hcaps.total
  · intro hlifts
    have hle := htotal.mpr hlifts
    exact ⟨clampCounts_count_le hvalid.nonneg, hle, plansWithinCap_of_total_le hle⟩

def thicketManifest : Manifest :=
  (((GoMap.make ∅).set "oak" default).set "fir" default).set "elm" default

/-- Over the global cap, and scaled down below it. -/
def thicketRecipe : Recipe :=
  ⟨.make [⟨"oak", 9000, 0, .nil⟩, ⟨"fir", 2000, 0, .nil⟩, ⟨"elm", 2001, 0, .nil⟩]⟩

theorem hardCaps_iff_thicket :
    LiftsCovered thicketRecipe ∧ HardCaps thicketRecipe ∧
      totalCount (clampCounts thicketRecipe).items.elems = 4998 := by
  have hvalid : validateRecipe (some thicketRecipe) thicketManifest = none := by decide
  have hlifts : LiftsCovered thicketRecipe := .inr (by decide)
  exact ⟨hlifts, (hardCaps_iff thicketRecipe thicketManifest hvalid).mpr hlifts, by decide⟩

def crowdedManifest : Manifest :=
  ["a", "b", "c", "d", "e", "f", "g"].foldl (fun man k => man.set k default) (.make ∅)

/-- Truncation takes less than the two lifts give back. -/
def crowdedRecipe : Recipe :=
  ⟨.make [⟨"a", 2000, 0, .nil⟩, ⟨"b", 2000, 0, .nil⟩, ⟨"c", 2000, 0, .nil⟩, ⟨"d", 2000, 0, .nil⟩,
    ⟨"e", 1998, 0, .nil⟩, ⟨"f", 1, 0, .nil⟩, ⟨"g", 1, 0, .nil⟩]⟩

theorem crowdedRecipe_exceeds_cap :
    validateRecipe (some crowdedRecipe) crowdedManifest = none ∧
      totalCount (clampCounts crowdedRecipe).items.elems = 5001 ∧ ¬HardCaps crowdedRecipe := by
  have htotal : totalCount (clampCounts crowdedRecipe).items.elems = 5001 := by decide
  refine ⟨by decide, htotal, fun h => ?_⟩
  have hle := h.total
  rw [htotal] at hle
  exact absurd hle (by decide)

/-! ### Agreement -/

/-- What the views of one stream agree on: `entries` is the placement, `chunkSize` and `man`
are the connection's. -/
structure StreamAgrees (chunkSize : ℕ) (man : Manifest) (entries : List AssetEntry) (p : Plan)
    (cs : List Chunk) (c : Complete) : Prop where
  assets : cs.flatMap (fun chunk => chunk.assets.elems) = entries
  size : ∀ chunk ∈ cs, 1 ≤ chunk.assets.len ∧ chunk.assets.len ≤ chunkSize
  full : ∀ chunk ∈ cs.dropLast, chunk.assets.len = chunkSize
  announced : p.totalAssets = p.categories.total
  streamed : p.totalAssets = (cs.flatMap fun chunk => chunk.assets.elems).length
  completed : c.stats.assets = p.totalAssets
  categories : ∀ k, p.categories.getD k 0 =
    (((cs.flatMap fun chunk => chunk.assets.elems).map (·.category)).count k : ℤ)
  known : ∀ chunk ∈ cs, chunk.validateCategories man = none

/-- The chunks of a placement, in order. -/
def chunksOf (o : Orchestrator) (req : Generate) (entries : List AssetEntry) : List Chunk :=
  (slices o.chunkSize o.chunkSize_pos entries 0).map (chunkMessage req)

theorem chunksOf_assets (o : Orchestrator) (req : Generate) (entries : List AssetEntry) :
    (chunksOf o req entries).flatMap (fun chunk => chunk.assets.elems) = entries := by
  have hflat := flatten_slices o.chunkSize o.chunkSize_pos entries 0
  rw [List.drop_zero, List.flatten_eq_flatMap] at hflat
  rw [chunksOf, List.flatMap_map]
  exact hflat

theorem chunkMessages_eq (o : Orchestrator) (req : Generate) (entries : List AssetEntry) :
    chunkMessages o req entries 0 = (chunksOf o req entries).map .chunk := by
  rw [chunksOf, List.map_map]
  rfl

/-- The stream of a placed recipe agrees with itself. -/
theorem streamAgrees_of_place {D : Draws} (o : Orchestrator) (req : Generate) {man : Manifest}
    {recipe : Recipe} {seed : ℤ} {entries : List AssetEntry} (hvalid : ValidRecipe man recipe)
    (hplace : place D recipe seed req.bounds man = .ok entries) (elapsed llmElapsed : ℤ) :
    StreamAgrees o.chunkSize man entries (planMessage req seed recipe entries)
      (chunksOf o req entries) (completeMessage req entries elapsed llmElapsed) := by
  have hassets := chunksOf_assets o req entries
  have htotal := place_length_eq_totalCount hvalid.nonneg hplace
  constructor
  · exact hassets
  · intro chunk hchunk
    obtain ⟨assets, hslice, rfl⟩ := List.mem_map.mp hchunk
    exact length_mem_slices _ _ _ _ assets hslice
  · intro chunk hchunk
    rw [chunksOf, ← List.map_dropLast] at hchunk
    obtain ⟨assets, hslice, rfl⟩ := List.mem_map.mp hchunk
    exact length_of_mem_dropLast_slices _ _ _ _ assets hslice
  · exact htotal.trans (planCategories_total hvalid.distinct).symm
  · rw [hassets]
    rfl
  · rfl
  · intro k
    rw [hassets, (place_categories_perm hplace).count_eq k]
    exact planCategories_getD hvalid.distinct hvalid.nonneg k
  · intro chunk hchunk
    rw [Chunk.validateCategories_eq_none_iff]
    intro e he
    refine place_known hplace e ?_
    rw [← hassets]
    exact List.mem_flatMap.mpr ⟨chunk, hchunk, he⟩

/-- A prefix of a stream that has its complete is the whole stream. -/
theorem eq_stream_of_complete_mem {o : Orchestrator} {req : Generate} {recipe : Recipe} {seed : ℤ}
    {entries : List AssetEntry} {elapsed llmElapsed : ℤ} {ms : List Message} {c : Complete}
    (hc : .complete c ∈ ms)
    (hpre : ms <+: streamMessages o req recipe seed entries elapsed llmElapsed) :
    c = completeMessage req entries elapsed llmElapsed ∧
      ms = streamMessages o req recipe seed entries elapsed llmElapsed := by
  have hnot : .complete c ∉ .plan (planMessage req seed recipe entries) ::
      chunkMessages o req entries 0 := by
    simp [chunkMessages]
  rw [streamMessages, ← List.cons_append] at hpre ⊢
  rcases List.prefix_concat_iff.mp hpre with heq | hshort
  · refine ⟨?_, heq⟩
    rw [heq, List.mem_append, List.mem_singleton] at hc
    rcases hc with hin | hlast
    · exact absurd hin hnot
    · cases hlast
      rfl
  · exact absurd (hshort.subset hc) hnot

/-- **Plan, chunks and complete agree.**  When a run that placed with `place` hands over a
complete, it has handed over one plan, chunks and that complete, computed from a recipe the
model returned and validation accepted against the manifest in force; and all views of the
stream agree. -/
theorem stream_agreement (D : Draws) (o : Orchestrator) (ho : o.place = place D) (req : Generate)
    (man : Manifest) (evs : List (Event Eff Resp)) (q : Run Unit) (ht : Trace (run o req) evs q)
    (hman : ∀ m, ⟨Eff.storeSnapshot, m⟩ ∈ evs → m = man) (c : Complete)
    (hc : .complete c ∈ sentMessages evs) :
    ∃ recipe seed entries p cs, ⟨Eff.llmReturn, .ok (some recipe)⟩ ∈ evs ∧
      validateRecipe (some recipe) man = none ∧ SeedFor req seed ∧
      place D (clampCounts recipe) seed req.bounds man = .ok entries ∧
      sentMessages evs = .plan p :: (cs.map .chunk ++ [.complete c]) ∧ p.seed = seed ∧
      StreamAgrees o.chunkSize man entries p cs c := by
  obtain ⟨man', recipe, seed, entries, elapsed, llmElapsed, hsnap, hrecipe, hvalid, hseed, hplace,
    hpre⟩ := exists_stream_of_mem ht hc (by simp)
  obtain rfl := hman man' hsnap
  obtain ⟨rfl, hms⟩ := eq_stream_of_complete_mem hc hpre
  rw [ho] at hplace
  rw [streamMessages, chunkMessages_eq] at hms
  exact ⟨recipe, seed, entries, _, _, hrecipe, (validateRecipe_eq_none_iff recipe man').mpr hvalid,
    hseed, hplace, hms, rfl,
    streamAgrees_of_place o req (clampCounts_valid hvalid) hplace elapsed llmElapsed⟩

def Message.complete? : Message → Option Complete
  | .complete c => some c
  | _ => none

theorem stream_agreement_meadow :
    ∃ p cs entries, StreamAgrees 2 meadowManifest entries p cs
      ⟨Version, TypeComplete, "g1", ⟨3, 0, 0⟩⟩ ∧ entries.length = 3 := by
  let o := (Orchestrator.new sawtoothDraws).setChunkSize 2
  let played := (play (steadyAnswers meadowManifest meadowRecipe) [] (run o meadowRequest)).1
  have htrace : Trace (run o meadowRequest) played (.ret ()) := trace_play _ [] _
  have hman : ∀ m, ⟨Eff.storeSnapshot, m⟩ ∈ played → m = meadowManifest :=
    fun _ hm => snapshot_play hm
  have hcomplete : ⟨Version, TypeComplete, "g1", ⟨3, 0, 0⟩⟩ ∈
      (sentMessages played).filterMap Message.complete? := by decide +kernel
  obtain ⟨m, hm, heq⟩ := List.mem_filterMap.mp hcomplete
  cases m <;> cases heq
  obtain ⟨_, _, entries, p, cs, _, _, _, _, _, _, hagrees⟩ :=
    stream_agreement sawtoothDraws o rfl meadowRequest meadowManifest played _ htrace hman _ hm
  have hlen : (3 : ℤ) = entries.length := by
    rw [← hagrees.assets, ← hagrees.streamed]
    exact hagrees.completed
  exact ⟨p, cs, entries, hagrees, by exact_mod_cast hlen.symm⟩

end AetherForge
