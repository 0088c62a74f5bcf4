import AetherForge.Backend.Decode
import AetherForge.Backend.StreamAgreement

/-!
# What a generation emits

Each message that `run` hands over, with the ranges of its numbers, when the clock counts
nanoseconds in an `int64` and the manifest has fewer than `2 ^ 31` entries.

* `totalCount_clampCounts_lt` — the total after clamping, for such a manifest;
* `run_emits` — every message is one of the four kinds, with numbers in range.
-/

namespace AetherForge

open Go GoJson Interaction Slicing

/-! ### The surroundings -/

/-- An answer that the surroundings can give: the clock counts in an `int64`, and the store holds
what a client's map, which has an `int32` size, was sent as. -/
def InRange : Event Eff Resp → Prop
  | ⟨.now, t⟩ => 0 ≤ t ∧ t < 2 ^ 63
  | ⟨.storeSnapshot, man⟩ => man.len < 2 ^ 31
  | _ => True

/-- Runs of the pipeline whose answers are in range. -/
def ranged : Observation Eff Resp Message := ⟨handed, fun _ => True, InRange⟩

/-- Steady answers are in range. -/
theorem inRange_play {α : Type} {man : Manifest} (hman : man.len < 2 ^ 31) (recipe : Recipe)
    (p : Run α) : ∀ ev ∈ (play (steadyAnswers man recipe) [] p).1, InRange ev := by
  intro ev hev
  obtain ⟨_, heq⟩ := mem_play hev
  rw [heq]
  have htime : (0 : ℤ) < 2 ^ 63 := by decide
  cases ev.1 with
  | now => exact ⟨le_rfl, htime⟩
  | storeSnapshot => exact hman
  | _ => trivial

/-- A number of milliseconds that fits a `time.Duration`. -/
def InDuration (ms : ℤ) : Prop := |ms| ≤ 9223372036854

/-- A message of a generation, with its numbers in range. -/
def Emitted (generationId : String) : Message → Prop
  | .plan p => p.protocolVersion = Version ∧ p.type = TypePlan ∧ p.generationId = generationId ∧
      (0 ≤ p.totalAssets ∧ p.totalAssets < 2 ^ 31) ∧
      ∀ k n, p.categories.get? k = some n → 0 ≤ n ∧ n ≤ MaxAssetsPerCategory
  | .chunk c => c.protocolVersion = Version ∧ c.type = TypeChunk ∧ c.generationId = generationId
  | .complete c => c.protocolVersion = Version ∧ c.type = TypeComplete ∧
      c.generationId = generationId ∧ (0 ≤ c.stats.assets ∧ c.stats.assets < 2 ^ 31) ∧
      InDuration c.stats.elapsedMs ∧ InDuration c.stats.llmMs
  | .error e => e.protocolVersion = Version ∧ e.type = TypeError ∧
      e.generationId = generationId ∧ e.code ≠ ""
  | _ => False

/-! ### Totals -/

/-- The categories of an accepted recipe are keys of the manifest. -/
theorem ValidRecipe.length_le {man : Manifest} {r : Recipe} (h : ValidRecipe man r) :
    r.items.elems.length ≤ man.len := by
  have hsub : (r.items.elems.map (·.category)).toFinset ⊆ man.keys := by
    intro k hk
    obtain ⟨it, hit, rfl⟩ := List.mem_map.mp (List.mem_toFinset.mp hk)
    exact GoMap.mem_keys_iff.mpr (h.known it hit)
  have hcard := Finset.card_le_card hsub
  rwa [List.toFinset_card_of_nodup h.distinct, List.length_map] at hcard

/-- **The total after clamping** stays below the number of entries, or below the product of the
caps. -/
theorem totalCount_clampCounts_lt {man : Manifest} {r : Recipe} (h : ValidRecipe man r)
    (hman : man.len < 2 ^ 31) : totalCount (clampCounts r).items.elems < 2 ^ 31 := by
  rw [totalCount, clampCounts_counts h.nonneg]
  by_cases hle : (cappedCounts r).sum ≤ MaxAssetsTotal
  · rw [if_pos hle]
    exact lt_of_le_of_lt hle (by decide)
  · have hbounds : ∀ c ∈ cappedCounts r, 0 ≤ c ∧ c ≤ MaxAssetsPerCategory := by
      intro c hc
      refine ⟨cappedCounts_nonneg h.nonneg c hc, ?_⟩
      obtain ⟨it, _, rfl⟩ := List.mem_map.mp hc
      exact min_le_right _ _
    have hsum := FloorSums.sum_liftedShare_le (by decide) hbounds (le_of_not_ge hle)
    have hlen : (cappedCounts r).length ≤ man.len := by
      rw [cappedCounts, List.length_map]
      exact h.length_le
    rw [if_neg hle]
    refine lt_of_le_of_lt hsum (max_lt (by decide) ?_)
    exact_mod_cast lt_of_le_of_lt hlen hman

/-- The counts of a plan are those of the clamped recipe. -/
theorem planCategories_mem {items : List CategoryRecipe} {k : String} {n : ℤ}
    (hnd : (items.map (·.category)).Nodup) (h : (planCategories items).get? k = some n) :
    ∃ it ∈ items, n = it.count := by
  by_cases hk : k ∈ items.map (·.category)
  · obtain ⟨it, hit, rfl⟩ := List.mem_map.mp hk
    have hcount : (planCategories items).get? it.category = some it.count :=
      fillCategories_get?_of_mem hnd hit
    rw [hcount] at h
    exact ⟨it, hit, (Option.some.inj h).symm⟩
  · have hnone : (planCategories items).get? k = none := fillCategories_get?_of_not_mem hk
    rw [hnone] at h
    cases h

/-- The milliseconds between two times. -/
theorem inDuration_milliseconds {t t' : ℤ} (h : 0 ≤ t ∧ t < 2 ^ 63) (h' : 0 ≤ t' ∧ t' < 2 ^ 63) :
    InDuration (milliseconds (t' - t)) := by
  have hsign : Int.sign 1000000 = 1 := rfl
  rw [InDuration, milliseconds, abs_le, Int.tdiv_eq_ediv, hsign]
  split <;> omega

/-! ### Emissions -/

section Stages

variable (o : Orchestrator) (req : Generate) {P : Message → Prop}
variable {O : Observation Eff Resp Message}

theorem emits_send (hO : O.message = handed) {msg : Message} (h : P msg) :
    Emits O P (send msg) := by
  rw [send_eq]
  refine emits_call_quiet (fun _ => by rw [hO]; rfl) fun done _ => ?_
  cases done with
  | true => exact emits_ret
  | false =>
    refine emits_call ?_ fun _ _ => emits_ret
    rw [hO]
    rintro _ _ ⟨⟩
    exact h

theorem emits_sendChunks (hO : O.message = handed)
    (h : ∀ assets, P (.chunk (chunkMessage req assets)))
    (entries : List AssetEntry) (off : ℕ) : Emits O P (sendChunks o req entries off) := by
  induction off using slices.induct o.chunkSize o.chunkSize_pos entries with
  | case1 off hoff ih =>
    rw [sendChunks, if_pos hoff]
    exact emits_and_then (emits_send hO (h _)) ih
  | case2 off hoff =>
    rw [sendChunks, if_neg hoff]
    exact emits_ret

theorem emits_sendError {code : String} (hcode : code ≠ "") (text : String) :
    Emits ranged (Emitted req.generationId) (sendError req.generationId code text true) := by
  rw [sendError_eq]
  refine emits_call ?_ fun _ _ => emits_ret
  rintro _ _ ⟨⟩
  exact ⟨rfl, rfl, rfl, hcode⟩

theorem recipeErrorCode_ne (err : Err) : recipeErrorCode err ≠ "" := by
  unfold recipeErrorCode
  split
  · decide
  split
  · decide
  · decide

theorem emits_reportRecipeError (err : Err) :
    Emits ranged (Emitted req.generationId) (reportRecipeError req.generationId err) := by
  rw [reportRecipeError_eq]
  refine emits_call_quiet (fun _ => rfl) fun cancelled _ => ?_
  split
  · exact emits_ret
  · exact emits_sendError req (recipeErrorCode_ne err) _

/-- The stream of a placement, when its length is in range. -/
theorem emits_stream {man : Manifest} {recipe : Recipe} (hvalid : ValidRecipe man recipe)
    {entries : List AssetEntry} (hlen : (entries.length : ℤ) < 2 ^ 31) {start : ℤ}
    (hstart : 0 ≤ start ∧ start < 2 ^ 63) {llmElapsed : ℤ}
    (hllm : InDuration (milliseconds llmElapsed)) (seed : ℤ) :
    Emits ranged (Emitted req.generationId)
      (stream o req (clampCounts recipe) seed entries start llmElapsed) := by
  have hcount := clampCounts_count_le hvalid.nonneg
  have hclamped := clampCounts_valid hvalid
  refine emits_and_then (emits_send rfl ⟨rfl, rfl, rfl, ⟨Int.natCast_nonneg _, hlen⟩, ?_⟩)
    (emits_and_then (emits_sendChunks o req rfl (fun _ => ⟨rfl, rfl, rfl⟩) entries 0) ?_)
  · intro k n hn
    obtain ⟨it, hit, rfl⟩ := planCategories_mem hclamped.distinct hn
    exact ⟨hclamped.nonneg it hit, hcount it hit⟩
  · rw [sendComplete_eq]
    refine emits_call_quiet (fun _ => rfl) fun finish hfinish => emits_send rfl ?_
    exact ⟨rfl, rfl, rfl, ⟨Int.natCast_nonneg _, hlen⟩, inDuration_milliseconds hstart hfinish,
      hllm⟩

theorem emits_placeAndStream {D : Draws} (ho : o.place = place D) {man : Manifest}
    (hman : man.len < 2 ^ 31) {recipe : Recipe} (hvalid : ValidRecipe man recipe) {start : ℤ}
    (hstart : 0 ≤ start ∧ start < 2 ^ 63) {llmElapsed : ℤ}
    (hllm : InDuration (milliseconds llmElapsed)) (seed : ℤ) :
    Emits ranged (Emitted req.generationId)
      (placeAndStream o req man (clampCounts recipe) seed start llmElapsed) := by
  unfold placeAndStream
  cases hplace : o.place (clampCounts recipe) seed req.bounds man with
  | error err =>
    refine emits_call_quiet (fun _ => rfl) fun cancelled _ => ?_
    cases cancelled with
    | true => exact emits_ret
    | false => exact emits_sendError req (by decide) _
  | ok entries =>
    have hlen : (entries.length : ℤ) < 2 ^ 31 := by
      rw [ho] at hplace
      rw [place_length_eq_totalCount (clampCounts_count_nonneg hvalid.nonneg) hplace]
      exact totalCount_clampCounts_lt hvalid hman
    exact emits_bind (S := fun _ => True) (emits_stream o req hvalid hlen hstart hllm seed)
      (fun _ _ _ _ => trivial) fun _ _ => emits_ret

/-- What is allowed here is allowed in every run. -/
theorem yields_ranged {α : Type} {S : α → Prop} {p : Run α}
    (h : Yields (pipeline (fun _ => True) fun _ => True) S p) : Yields ranged S p := by
  refine h.weaken rfl fun ev _ => ?_
  show AnswersFrom _ _ ev
  unfold AnswersFrom
  split <;> trivial

theorem emits_runWithManifest {D : Draws} (ho : o.place = place D) {man : Manifest}
    (hman : man.len < 2 ^ 31) {start : ℤ} (hstart : 0 ≤ start ∧ start < 2 ^ 63) :
    Emits ranged (Emitted req.generationId) (runWithManifest o req start man) := by
  rw [runWithManifest_eq]
  refine emits_call_quiet (fun _ => rfl) fun llmStart hllmStart => ?_
  refine emits_of_yields (yields_ranged (yields_recipeAttempts req man 2 "" _)) ?_
  intro result hres
  refine emits_call_quiet (fun _ => rfl) fun llmEnd hllmEnd => ?_
  have hllm : InDuration (milliseconds (llmEnd - llmStart)) :=
    inDuration_milliseconds hllmStart hllmEnd
  cases result with
  | error err => exact emits_reportRecipeError req err
  | ok recipe =>
    refine emits_of_yields (yields_ranged (yields_chooseSeed req)) fun seed _ => ?_
    exact emits_placeAndStream o req ho hman hres.1 hstart hllm seed

/-- **Every message of a run** is one of the four kinds, with numbers in range. -/
theorem run_emits {D : Draws} (ho : o.place = place D) :
    Emits ranged (Emitted req.generationId) (run o req) := by
  rw [run_eq]
  refine emits_call_quiet (fun _ => rfl) fun start hstart => ?_
  refine emits_call_quiet (fun _ => rfl) fun ready _ => ?_
  cases ready with
  | false => exact emits_sendError req (by decide) _
  | true =>
    exact emits_call_quiet (fun _ => rfl) fun man hman => emits_runWithManifest o req ho hman hstart

end Stages

end AetherForge
