import AetherForge.Library.GoJsonMaps
import AetherForge.Backend.RecordReplay

/-!
# The fake model

`FakeLLM` of `fake.go`: a recipe made from the manifest alone, and settings by which tests let calls
fail.  What the machine converts a `float64` beyond the range of `int` to is a parameter.

* `default_recipe` — the recipe that is made from a manifest;
* `fake_generation` — one generation, by how many calls are still to be rejected;
* `fake_generations` — any number of generations, one after the other.

A canned recipe shares its items with the recipe that is returned, so the orchestrator's
`clampCounts` changes the canned one too.
-/

namespace AetherForge

open Go GoJson

/-! ### defaultRecipe -/

section Default

variable (beyond : ℚ → ℤ)

/-- `int(6000 / radius)` for a positive radius. -/
def densityCount (radius : ℚ) : ℤ :=
  let q := Binary64.round (6000 / radius)
  if q < 2 ^ 63 then ⌊q⌋ else beyond (6000 / radius)

/-- The item of a category. -/
def defaultItem (k : String) (e : ManifestEntry) : CategoryRecipe :=
  let count := if 0 < e.footprintRadius then densityCount beyond e.footprintRadius else 8
  if e.instanceable then
    ⟨k, min (max count 4) 80, Binary64.round (7 / 10), .make ["scatter"]⟩
  else
    ⟨k, min (min (max (count.tdiv 10) 1) 4) 80, 0, .make ["creature"]⟩

/-- `defaultRecipe`; nothing is appended to a `nil` slice for an empty manifest. -/
def defaultRecipe (req : Request) : Recipe :=
  let keys := sortedKeys req.manifest
  if keys = [] then ⟨.nil⟩
  else ⟨.make (keys.map fun k => defaultItem beyond k (req.manifest.getD k default))⟩

variable {beyond}

theorem defaultItem_category (k : String) (e : ManifestEntry) :
    (defaultItem beyond k e).category = k := by
  unfold defaultItem
  cases e.instanceable <;> rfl

/-- The counts are bounded, whatever the machine makes of a large quotient. -/
theorem defaultItem_bounds (beyond : ℚ → ℤ) (k : String) (e : ManifestEntry) :
    (e.instanceable = true → 4 ≤ (defaultItem beyond k e).count ∧
      (defaultItem beyond k e).count ≤ 80) ∧
    (e.instanceable = false → 1 ≤ (defaultItem beyond k e).count ∧
      (defaultItem beyond k e).count ≤ 4) := by
  unfold defaultItem
  cases e.instanceable with
  | true =>
    refine ⟨fun _ => ⟨?_, min_le_right _ _⟩, fun h => by cases h⟩
    exact le_min (le_max_right _ _) (by decide)
  | false =>
    refine ⟨fun h => (by cases h), fun _ => ⟨?_, ?_⟩⟩
    · exact le_min (le_min (le_max_right _ _) (by decide)) (by decide)
    · exact (min_le_left _ _).trans (min_le_right _ _)

theorem densityCount_antitone (beyond : ℚ → ℤ) {r r' : ℚ} (hpos : 0 < r) (h : r ≤ r')
    (hrange : Binary64.round (6000 / r) < 2 ^ 63) :
    0 ≤ densityCount beyond r' ∧ densityCount beyond r' ≤ densityCount beyond r := by
  have hquotient : (6000 : ℚ) / r' ≤ 6000 / r := div_le_div_of_nonneg_left (by norm_num) hpos h
  have hpositive : (0 : ℚ) < 6000 / r' := div_pos (by norm_num) (hpos.trans_le h)
  have hround := Binary64.round_mono hpositive hquotient
  have hnonneg : (0 : ℚ) ≤ Binary64.round (6000 / r') := Binary64.round_nonneg hpositive.le
  rw [densityCount, densityCount, if_pos hrange, if_pos (hround.trans_lt hrange)]
  exact ⟨Int.floor_nonneg.mpr hnonneg, Int.floor_mono hround⟩

/-- A category of the same kind with a larger footprint is placed no more often. -/
theorem defaultItem_antitone {k k' : String} {e e' : ManifestEntry}
    (hkind : e.instanceable = e'.instanceable) (hpos : 0 < e.footprintRadius)
    (h : e.footprintRadius ≤ e'.footprintRadius)
    (hrange : Binary64.round (6000 / e.footprintRadius) < 2 ^ 63) :
    (defaultItem beyond k' e').count ≤ (defaultItem beyond k e).count := by
  obtain ⟨hnonneg, hcount⟩ := densityCount_antitone beyond hpos h hrange
  unfold defaultItem
  rw [hkind, if_pos hpos, if_pos (hpos.trans_le h)]
  cases e'.instanceable with
  | true => exact min_le_min_right 80 (max_le_max_right 4 hcount)
  | false =>
    have htenth : (densityCount beyond e'.footprintRadius).tdiv 10 ≤
        (densityCount beyond e.footprintRadius).tdiv 10 := by
      rw [Int.tdiv_eq_ediv_of_nonneg hnonneg, Int.tdiv_eq_ediv_of_nonneg (hnonneg.trans hcount)]
      exact Int.ediv_le_ediv (by decide) hcount
    exact min_le_min_right 80 (min_le_min_right 4 (max_le_max_right 1 htenth))

theorem defaultRecipe_elems (req : Request) :
    (defaultRecipe beyond req).items.elems = (sortedKeys req.manifest).map fun k =>
      defaultItem beyond k (req.manifest.getD k default) := by
  unfold defaultRecipe
  by_cases h : sortedKeys req.manifest = []
  · rw [if_pos h, h]
    rfl
  · rw [if_neg h]
    rfl

/-- Each item is that of an entry of the manifest. -/
theorem mem_defaultRecipe {req : Request} {it : CategoryRecipe}
    (h : it ∈ (defaultRecipe beyond req).items.elems) :
    ∃ e, req.manifest.get? it.category = some e ∧ it = defaultItem beyond it.category e := by
  rw [defaultRecipe_elems] at h
  obtain ⟨k, hk, rfl⟩ := List.mem_map.mp h
  obtain ⟨e, he⟩ := Option.isSome_iff_exists.mp (mem_sortedKeys_iff.mp hk)
  rw [defaultItem_category, GoMap.getD, he, Option.getD_some]
  exact ⟨e, rfl, rfl⟩

theorem defaultRecipe_categories (req : Request) :
    (defaultRecipe beyond req).items.elems.map (·.category) = sortedKeys req.manifest := by
  rw [defaultRecipe_elems, List.map_map]
  exact (List.map_congr_left fun k _ => defaultItem_category k _).trans (List.map_id _)

theorem defaultRecipe_counts {req : Request} {it : CategoryRecipe}
    (h : it ∈ (defaultRecipe beyond req).items.elems) : 1 ≤ it.count ∧ it.count ≤ 80 := by
  obtain ⟨e, _, hit⟩ := mem_defaultRecipe h
  have hbounds := defaultItem_bounds beyond it.category e
  rw [← hit] at hbounds
  cases hkind : e.instanceable with
  | true => exact ⟨(by decide : (1 : ℤ) ≤ 4).trans (hbounds.1 hkind).1, (hbounds.1 hkind).2⟩
  | false => exact ⟨(hbounds.2 hkind).1, (hbounds.2 hkind).2.trans (by decide)⟩

theorem validateRecipe_defaultRecipe (req : Request) :
    validateRecipe (some (defaultRecipe beyond req)) req.manifest = none ↔
      req.manifest.len ≠ 0 := by
  rw [validateRecipe_eq_none_iff, ← sortedKeys_length, Ne, List.length_eq_zero_iff]
  constructor
  · intro h hkeys
    refine h.nonempty ?_
    rw [defaultRecipe_elems, hkeys, List.map_nil]
  · intro h
    refine ⟨?_, ?_, ?_, ?_⟩
    · rw [defaultRecipe_elems, Ne, List.map_eq_nil_iff]
      exact h
    · intro it hit
      obtain ⟨e, he, _⟩ := mem_defaultRecipe hit
      rw [he]
      rfl
    · rw [defaultRecipe_categories]
      exact sortedKeys_nodup _
    · intro it hit
      exact (by decide : (0 : ℤ) ≤ 1).trans (defaultRecipe_counts hit).1

theorem defaultRecipe_representable (req : Request) :
    (defaultRecipe beyond req).Representable := by
  intro it hit
  obtain ⟨hlo, hhi⟩ := defaultRecipe_counts hit
  obtain ⟨e, _, heq⟩ := mem_defaultRecipe hit
  refine ⟨⟨by omega, by omega⟩, ?_⟩
  rw [heq, defaultItem]
  split
  · show InFloat64 (Binary64.round (7 / 10))
    decide +kernel
  · show InFloat64 0
    decide +kernel

/-- Neither cap is reached with as many categories as fit under the global cap. -/
theorem clampCounts_defaultRecipe {req : Request} (h : req.manifest.len ≤ 62) :
    clampCounts (defaultRecipe beyond req) = defaultRecipe beyond req := by
  have hcapped : (defaultRecipe beyond req).items.map capItem =
      (defaultRecipe beyond req).items := by
    refine Slice.ext_elems ?_ rfl
    rw [Slice.map_elems]
    refine (List.map_congr_left fun it hit => ?_).trans (List.map_id _)
    exact if_neg (not_lt.mpr ((defaultRecipe_counts hit).2.trans (by decide)))
  have htotal : totalCount (defaultRecipe beyond req).items.elems ≤ MaxAssetsTotal := by
    have hsum := List.sum_le_card_nsmul
      ((defaultRecipe beyond req).items.elems.map (·.count)) 80 (by
        intro c hc
        obtain ⟨it, hit, rfl⟩ := List.mem_map.mp hc
        exact (defaultRecipe_counts hit).2)
    have hlength : (defaultRecipe beyond req).items.elems.length = req.manifest.len := by
      rw [defaultRecipe_elems, List.length_map, sortedKeys_length]
    rw [List.length_map, hlength, nsmul_eq_mul] at hsum
    refine hsum.trans ?_
    unfold MaxAssetsTotal
    omega
  rw [clampCounts]
  simp only [hcapped]
  rw [if_pos (.inl htotal)]

/-- **The recipe of a manifest.**  It has one item for each category, in the order of the keys; it
is accepted unless the manifest is empty; its numbers can be recorded; of two categories of one
kind, the one with the larger footprint gets no more than the other; and clamping leaves it as it
is for as many categories as fit under the global cap. -/
theorem default_recipe (beyond : ℚ → ℤ) (req : Request) :
    let r := defaultRecipe beyond req
    r.items.elems.map (·.category) = sortedKeys req.manifest ∧
      (validateRecipe (some r) req.manifest = none ↔ req.manifest.len ≠ 0) ∧
      r.Representable ∧
      (∀ it ∈ r.items.elems, ∃ e, req.manifest.get? it.category = some e ∧
        if e.instanceable then 4 ≤ it.count ∧ it.count ≤ 80
        else 1 ≤ it.count ∧ it.count ≤ 4) ∧
      (∀ it ∈ r.items.elems, ∀ it' ∈ r.items.elems, ∀ e e',
        req.manifest.get? it.category = some e → req.manifest.get? it'.category = some e' →
        e.instanceable = e'.instanceable → 0 < e.footprintRadius →
        e.footprintRadius ≤ e'.footprintRadius →
        Binary64.round (6000 / e.footprintRadius) < 2 ^ 63 → it'.count ≤ it.count) ∧
      (req.manifest.len ≤ 62 → clampCounts r = r) := by
  refine ⟨defaultRecipe_categories req, validateRecipe_defaultRecipe req,
    defaultRecipe_representable req, ?_, ?_, clampCounts_defaultRecipe⟩
  · intro it hit
    obtain ⟨e, he, heq⟩ := mem_defaultRecipe hit
    refine ⟨e, he, ?_⟩
    have hbounds := defaultItem_bounds beyond it.category e
    rw [← heq] at hbounds
    cases hkind : e.instanceable with
    | true => exact hbounds.1 hkind
    | false => exact hbounds.2 hkind
  · intro it hit it' hit' e e' he he' hkind hpos hle hrange
    obtain ⟨f, hf, heq⟩ := mem_defaultRecipe hit
    obtain ⟨f', hf', heq'⟩ := mem_defaultRecipe hit'
    obtain rfl : e = f := Option.some.inj (he.symm.trans hf)
    obtain rfl : e' = f' := Option.some.inj (he'.symm.trans hf')
    rw [heq, heq']
    exact defaultItem_antitone hkind hpos hle hrange

end Default

/-! ### FakeLLM -/

/-- `FakeLLM`, with what its calls have left in it. -/
structure FakeLLM where
  recipe : Option Recipe
  err : Option Err
  invalidAttempts : ℤ
  delay : ℤ
  calls : ℕ
  priorErrors : List String

/-- What a call sees of its context: the error for which it stops waiting, if the context is done
first, and `ctx.Err()` after the wait. -/
structure ContextView where
  waiting : Option Err
  after : Option Err

/-- A context that is never done. -/
def ContextView.live : ContextView := ⟨none, none⟩

def cannedViolation : String := "canned schema violation from FakeLLM"

section Calls

variable (beyond : ℚ → ℤ)

namespace FakeLLM

/-- What a call returns once it has been counted. -/
def answer (ctx : ContextView) (req : Request) (f : FakeLLM) : Outcome :=
  match if 0 < f.delay then ctx.waiting else none with
  | some err => .error err
  | none =>
    match ctx.after with
    | some err => .error err
    | none =>
      match f.err with
      | some err => .error err
      | none =>
        if f.calls ≤ f.invalidAttempts then .error (invalidOutputError cannedViolation)
        else
          match f.recipe with
          | some r => .ok (some r)
          | none => .ok (some (defaultRecipe beyond req))

/-- `FakeLLM.GenerateRecipe`. -/
def generateRecipe (ctx : ContextView) (req : Request) (f : FakeLLM) : Outcome × FakeLLM :=
  let f := { f with calls := f.calls + 1, priorErrors := f.priorErrors ++ [req.priorError] }
  (f.answer beyond ctx req, f)

/-- The recipe that is served for a manifest. -/
def served (f : FakeLLM) (man : Manifest) : Recipe :=
  f.recipe.getD (defaultRecipe beyond ⟨"", man, ""⟩)

/-- The fake after calls with these prior errors. -/
def after (f : FakeLLM) (priorErrors : List String) : FakeLLM :=
  { f with calls := f.calls + priorErrors.length, priorErrors := f.priorErrors ++ priorErrors }

variable {beyond}

/-- A call never returns without a recipe and without an error. -/
theorem answer_ne {ctx : ContextView} {req : Request} {f : FakeLLM} :
    f.answer beyond ctx req ≠ .ok none := by
  intro h
  unfold answer at h
  split at h
  · cases h
  split at h
  · cases h
  split at h
  · cases h
  split at h
  · cases h
  split at h <;> cases h

theorem generateRecipe_live {req : Request} {f : FakeLLM} (herr : f.err = none) :
    f.generateRecipe beyond .live req =
      (if (f.calls : ℤ) < f.invalidAttempts then .error (invalidOutputError cannedViolation)
        else .ok (some (f.served beyond req.manifest)), f.after [req.priorError]) := by
  obtain ⟨recipe, err, invalidAttempts, delay, calls, priorErrors⟩ := f
  obtain rfl : err = none := herr
  refine Prod.ext ?_ rfl
  have hrejected : ((calls + 1 : ℕ) : ℤ) ≤ invalidAttempts ↔ (calls : ℤ) < invalidAttempts := by
    omega
  simp only [generateRecipe, answer, ContextView.live, ite_self, served, hrejected]
  cases recipe <;> rfl

end FakeLLM

/-- The fake as a client, with the context of each call. -/
def fakeClient (ctx : ℕ → ContextView) : Client FakeLLM := fun req f =>
  some (f.generateRecipe beyond (ctx f.calls) req)

/-- A generation up to its clamped recipe.  The recipe that the fake returns shares its items with
the one it holds, and `clampCounts` writes into them. -/
def fakeGeneration (ctx : ℕ → ContextView) (req : Generate) (man : Manifest) (f : FakeLLM) :
    Option (Except Err Recipe × FakeLLM) :=
  (recipeVia (fakeClient beyond ctx) req man f).map fun p =>
    match p.1 with
    | .error err => (.error err, p.2)
    | .ok r => (.ok (clampCounts r), { p.2 with recipe := p.2.recipe.map clampCounts })

/-- Generations one after the other. -/
def fakeGenerations (ctx : ℕ → ContextView) :
    List (Generate × Manifest) → FakeLLM → Option (List (Except Err Recipe) × FakeLLM)
  | [], f => some ([], f)
  | (req, man) :: rest, f =>
    (fakeGeneration beyond ctx req man f).bind fun p =>
      (fakeGenerations ctx rest p.2).map fun q => (p.1 :: q.1, q.2)

variable {beyond}

/-- **One generation**: the recipe is served unless two calls are still to be rejected. -/
theorem fake_generation {ctx : ℕ → ContextView} {req : Generate} {man : Manifest} {f : FakeLLM}
    (hctx : ∀ n, ctx n = .live) (herr : f.err = none)
    (hvalid : validateRecipe (some (f.served beyond man)) man = none) :
    recipeVia (fakeClient beyond ctx) req man f = some
      (if (f.calls : ℤ) + 1 < f.invalidAttempts then
        (.error ((invalidOutputError cannedViolation).wrap "after one retry: " ""),
          f.after ["", cannedViolation])
      else (.ok (f.served beyond man),
        f.after (if (f.calls : ℤ) < f.invalidAttempts then ["", cannedViolation] else [""]))) := by
  have haccepted : attemptResult man (.ok (some (f.served beyond man))) =
      .ok (f.served beyond man) := by
    simp only [attemptResult, hvalid, Option.getD_some]
  have hcall : ∀ priorError (g : FakeLLM), g.err = none →
      fakeClient beyond ctx ⟨req.prompt, man, priorError⟩ g = some
        (if (g.calls : ℤ) < g.invalidAttempts then .error (invalidOutputError cannedViolation)
          else .ok (some (g.served beyond man)), g.after [priorError]) := by
    intro priorError g hg
    rw [fakeClient, hctx, FakeLLM.generateRecipe_live hg]
  rw [recipeVia_eq, attemptsVia, hcall "" f herr]
  by_cases hfirst : (f.calls : ℤ) < f.invalidAttempts
  · -- the first call is rejected
    simp only [if_pos hfirst, attemptResult, invalidOutputError_invalid]
    rw [attemptsVia, hcall cannedViolation (f.after [""]) herr]
    have hsecond : (((f.after [""]).calls : ℕ) : ℤ) < (f.after [""]).invalidAttempts ↔
        (f.calls : ℤ) + 1 < f.invalidAttempts := by
      show ((f.calls + 1 : ℕ) : ℤ) < f.invalidAttempts ↔ _
      push_cast
      rfl
    have htwice : (f.after [""]).after [cannedViolation] = f.after ["", cannedViolation] := by
      simp only [FakeLLM.after, List.append_assoc, List.length_cons, List.length_nil, Nat.add_assoc,
        List.cons_append, List.nil_append]
    simp only [hsecond, htwice]
    by_cases hmore : (f.calls : ℤ) + 1 < f.invalidAttempts
    · simp only [if_pos hmore, attemptResult, invalidOutputError_invalid]
      rfl
    · have hserved : (f.after [""]).served beyond man = f.served beyond man := rfl
      simp only [if_neg hmore, hserved, haccepted]
  · have hmore : ¬(f.calls : ℤ) + 1 < f.invalidAttempts := by omega
    simp only [if_neg hfirst, if_neg hmore, haccepted]

/-! ### Many generations -/

namespace FakeLLM

variable (beyond)

/-- What the generation with this index gets: an error while both its calls are rejected, and then
the canned recipe, clamped once more than the time before, or the recipe of its manifest. -/
def resultAt (f : FakeLLM) (i : ℕ) (man : Manifest) : Except Err Recipe :=
  if i < f.invalidAttempts.toNat / 2 then
    .error ((invalidOutputError cannedViolation).wrap "after one retry: " "")
  else
    match f.recipe with
    | some r => .ok (clampCounts^[i + 1 - f.invalidAttempts.toNat / 2] r)
    | none => .ok (clampCounts (defaultRecipe beyond ⟨"", man, ""⟩))

/-- The fake after this many generations. -/
def afterGenerations (f : FakeLLM) (n : ℕ) : FakeLLM :=
  { f with
    recipe := f.recipe.map clampCounts^[n - f.invalidAttempts.toNat / 2]
    calls := n + min n ((f.invalidAttempts.toNat + 1) / 2)
    priorErrors := (List.range n).flatMap fun i =>
      if 2 * i < f.invalidAttempts.toNat then ["", cannedViolation] else [""] }

variable {beyond}

theorem served_afterGenerations {f : FakeLLM} {man : Manifest}
    (h : validateRecipe (some (f.served beyond man)) man = none) (n : ℕ) :
    validateRecipe (some ((f.afterGenerations n).served beyond man)) man = none := by
  cases hrecipe : f.recipe with
  | none =>
    simp only [served, afterGenerations, hrecipe, Option.map_none] at h ⊢
    exact h
  | some r =>
    simp only [served, afterGenerations, hrecipe, Option.map_some, Option.getD_some,
      validateRecipe_eq_none_iff] at h ⊢
    generalize n - f.invalidAttempts.toNat / 2 = times
    induction times with
    | zero => exact h
    | succ times ih =>
      rw [Function.iterate_succ_apply']
      exact clampCounts_valid ih

end FakeLLM

/-- The generation with index `n`, after those before it. -/
theorem fakeGeneration_step {ctx : ℕ → ContextView} {f : FakeLLM} (hctx : ∀ n, ctx n = .live)
    (herr : f.err = none) (req : Generate) {man : Manifest}
    (hvalid : validateRecipe (some (f.served beyond man)) man = none) (n : ℕ) :
    fakeGeneration beyond ctx req man (f.afterGenerations n) =
      some (f.resultAt beyond n man, f.afterGenerations (n + 1)) := by
  have hafter : (f.afterGenerations n).err = none := herr
  have htwice : ((f.afterGenerations n).calls : ℤ) + 1 < (f.afterGenerations n).invalidAttempts ↔
      n < f.invalidAttempts.toNat / 2 := by
    simp only [FakeLLM.afterGenerations]
    omega
  have honce : ((f.afterGenerations n).calls : ℤ) < (f.afterGenerations n).invalidAttempts ↔
      2 * n < f.invalidAttempts.toNat := by
    simp only [FakeLLM.afterGenerations]
    omega
  rw [fakeGeneration, fake_generation hctx hafter (FakeLLM.served_afterGenerations hvalid n)]
  simp only [htwice, honce]
  by_cases hrejected : n < f.invalidAttempts.toNat / 2
  · have hcalled : 2 * n < f.invalidAttempts.toNat := by omega
    have hnone : n - f.invalidAttempts.toNat / 2 = n + 1 - f.invalidAttempts.toNat / 2 := by omega
    simp only [if_pos hrejected, Option.map_some, FakeLLM.resultAt]
    refine congrArg some (Prod.ext rfl ?_)
    simp only [FakeLLM.after, FakeLLM.afterGenerations, hnone, List.range_succ,
      List.flatMap_append, List.flatMap_singleton, if_pos hcalled, List.length_cons,
      List.length_nil]
    congr 1
    omega
  · have hsucc : n + 1 - f.invalidAttempts.toNat / 2 = n - f.invalidAttempts.toNat / 2 + 1 := by
      omega
    simp only [if_neg hrejected, Option.map_some, FakeLLM.resultAt]
    refine congrArg some (Prod.ext ?_ ?_)
    · simp only [FakeLLM.served, FakeLLM.afterGenerations, hsucc, Function.iterate_succ_apply']
      cases f.recipe <;> rfl
    · simp only [FakeLLM.after, FakeLLM.afterGenerations, hsucc, List.range_succ,
        List.flatMap_append, List.flatMap_singleton, Option.map_map, ← Function.iterate_succ']
      by_cases hcalled : 2 * n < f.invalidAttempts.toNat
      · simp only [if_pos hcalled, List.length_cons, List.length_nil]
        congr 1
        omega
      · simp only [if_neg hcalled, List.length_cons, List.length_nil]
        congr 1
        omega

theorem fakeGenerations_run {ctx : ℕ → ContextView} {f : FakeLLM} (hctx : ∀ n, ctx n = .live)
    (herr : f.err = none) (gens : List (Generate × Manifest))
    (hvalid : ∀ p ∈ gens, validateRecipe (some (f.served beyond p.2)) p.2 = none) (n : ℕ) :
    fakeGenerations beyond ctx gens (f.afterGenerations n) =
      some ((gens.zipIdx n).map fun p => f.resultAt beyond p.2 p.1.2,
        f.afterGenerations (n + gens.length)) := by
  induction gens generalizing n with
  | nil => rfl
  | cons p gens ih =>
    obtain ⟨req, man⟩ := p
    obtain ⟨hfirst, hrest⟩ := List.forall_mem_cons.mp hvalid
    rw [fakeGenerations, fakeGeneration_step hctx herr req hfirst n, Option.bind_some, ih hrest,
      Option.map_some, List.length_cons, Nat.add_assoc, Nat.add_comm 1]
    rfl

end Calls

/-- A fake that rejects three calls. -/
def strictFake : FakeLLM := ⟨some meadowRecipe, none, 3, 0, 0, []⟩

end AetherForge
