import AetherForge.Backend.Protocol
import AetherForge.Library.FloorSums

/-!
# Recipe validation and the hard caps

`validateRecipe` and `clampCounts` of `orchestrator.go`.  The scale-down is read exactly: the
count a category keeps is the truncated quotient of `count * 5000` by the capped total.

* `validateRecipe_eq_none_iff` — what an accepted recipe is (`ValidRecipe`);
* `clampCounts_count_le` — no category exceeds its cap, in every case;
* `clampCounts_total_le_iff` — the total stays within its cap exactly when the lifts of small
  counts back to `1` do not outweigh the truncation (`LiftsCovered`);
* `clampCounts_valid` — clamping an accepted recipe gives an accepted recipe;
* `clampCounts_fair` — one monotone function of the count does all the clamping, and loses no
  more than rounding.
-/

namespace AetherForge

open Go

def MaxAssetsPerCategory : ℤ := 2000
def MaxAssetsTotal : ℤ := 5000
def DefaultChunkSize : ℕ := 50

/-! ### validateRecipe -/

/-- The item loop of `validateRecipe`; `seen` holds the categories of earlier items. -/
def validateItems (man : Manifest) : List String → List CategoryRecipe → Option Err
  | _, [] => none
  | seen, it :: rest =>
    match man.get? it.category with
    | none => some (invalidOutputError
        ("categories." ++ it.category ++ " is not a key in the advertised manifest"))
    | some _ =>
      if it.category ∈ seen then
        some (invalidOutputError ("categories." ++ it.category ++ " appears more than once"))
      else if it.count < 0 then
        some (invalidOutputError
          ("categories." ++ it.category ++ " has negative count " ++ toString it.count))
      else validateItems man (it.category :: seen) rest

/-- `validateRecipe`: `none` for an accepted recipe. -/
def validateRecipe (r : Option Recipe) (man : Manifest) : Option Err :=
  match r with
  | none => some (invalidOutputError "recipe is empty")
  | some r =>
    if r.items.len = 0 then some (invalidOutputError "recipe is empty")
    else validateItems man [] r.items.elems

/-- What validation accepts: some items, all of known categories, each category once, no
negative count. -/
structure ValidRecipe (man : Manifest) (r : Recipe) : Prop where
  nonempty : r.items.elems ≠ []
  known : ∀ it ∈ r.items.elems, (man.get? it.category).isSome
  distinct : (r.items.elems.map (·.category)).Nodup
  nonneg : ∀ it ∈ r.items.elems, 0 ≤ it.count

theorem validateItems_eq_none_iff (man : Manifest) (items : List CategoryRecipe)
    (seen : List String) :
    validateItems man seen items = none ↔
      (∀ it ∈ items, (man.get? it.category).isSome ∧ it.category ∉ seen ∧ 0 ≤ it.count) ∧
        (items.map (·.category)).Nodup := by
  induction items generalizing seen with
  | nil => simp [validateItems]
  | cons it rest ih =>
    rw [validateItems, List.forall_mem_cons, List.map_cons, List.nodup_cons]
    cases hk : man.get? it.category with
    | none => simp
    | some e =>
      simp only [Option.isSome_some, true_and]
      by_cases hs : it.category ∈ seen
      · simp [hs]
      by_cases hc : it.count < 0
      · simp [hs, hc]
      · rw [if_neg hs, if_neg hc, ih]
        simp only [List.mem_cons, not_or, List.mem_map, not_exists, not_and]
        constructor
        · rintro ⟨hall, hnd⟩
          exact ⟨⟨⟨hs, not_lt.mp hc⟩, fun x hx => ⟨(hall x hx).1, (hall x hx).2.1.2,
            (hall x hx).2.2⟩⟩, fun x hx => (hall x hx).2.1.1, hnd⟩
        · rintro ⟨⟨_, hall⟩, hne, hnd⟩
          exact ⟨fun x hx => ⟨(hall x hx).1, ⟨hne x hx, (hall x hx).2.1⟩, (hall x hx).2.2⟩, hnd⟩

/-- **Validation accepts exactly the valid recipes.** -/
theorem validateRecipe_eq_none_iff (r : Recipe) (man : Manifest) :
    validateRecipe (some r) man = none ↔ ValidRecipe man r := by
  rw [validateRecipe]
  by_cases hl : r.items.len = 0
  · rw [if_pos hl]
    constructor
    · nofun
    · intro h
      exact absurd (List.eq_nil_of_length_eq_zero hl) h.nonempty
  · rw [if_neg hl, validateItems_eq_none_iff]
    constructor
    · rintro ⟨hall, hnd⟩
      refine ⟨fun h => hl ?_, fun it hit => (hall it hit).1, hnd, fun it hit => (hall it hit).2.2⟩
      rw [Slice.len, h, List.length_nil]
    · rintro ⟨_, hk, hd, hn⟩
      exact ⟨fun it hit => ⟨hk it hit, by simp, hn it hit⟩, hd⟩

theorem validateItems_invalid {man : Manifest} {items : List CategoryRecipe} {seen : List String}
    {e : Err} (h : validateItems man seen items = some e) :
    ∃ detail, detail ≠ "" ∧ e = invalidOutputError detail := by
  induction items generalizing seen with
  | nil => cases h
  | cons it rest ih =>
    rw [validateItems] at h
    cases hk : man.get? it.category with
    | none =>
      rw [hk] at h
      cases h
      exact ⟨_, by simp, rfl⟩
    | some _ =>
      rw [hk] at h
      simp only at h
      split at h
      · cases h
        exact ⟨_, by simp, rfl⟩
      split at h
      · cases h
        exact ⟨_, by simp, rfl⟩
      · exact ih h

/-- Every rejection is an `InvalidOutputError` with a detail to feed back to the model. -/
theorem validateRecipe_invalid {r : Option Recipe} {man : Manifest} {e : Err}
    (h : validateRecipe r man = some e) :
    ∃ detail, detail ≠ "" ∧ e = invalidOutputError detail := by
  cases r with
  | none =>
    cases h
    exact ⟨_, by decide, rfl⟩
  | some r =>
    rw [validateRecipe] at h
    split at h
    · cases h
      exact ⟨_, by decide, rfl⟩
    · exact validateItems_invalid h

/-! ### clampCounts -/

/-- The sum of the counts of some items. -/
def totalCount (items : List CategoryRecipe) : ℤ := (items.map (·.count)).sum

/-- The per-category cap. -/
def capItem (it : CategoryRecipe) : CategoryRecipe :=
  if it.count > MaxAssetsPerCategory then { it with count := MaxAssetsPerCategory } else it

/-- The proportional scale-down of one item for the capped total; a positive count never
drops to nothing. -/
def scaleItem (total : ℤ) (it : CategoryRecipe) : CategoryRecipe :=
  let c := (it.count * MaxAssetsTotal).tdiv total
  { it with count := if it.count > 0 ∧ c < 1 then 1 else c }

/-- `clampCounts`. -/
def clampCounts (r : Recipe) : Recipe :=
  let capped := r.items.map capItem
  let total := totalCount capped.elems
  if total ≤ MaxAssetsTotal ∨ total = 0 then ⟨capped⟩
  else ⟨capped.map (scaleItem total)⟩

@[simp] theorem capItem_category (it : CategoryRecipe) : (capItem it).category = it.category := by
  unfold capItem
  split <;> rfl

@[simp] theorem capItem_count (it : CategoryRecipe) :
    (capItem it).count = min it.count MaxAssetsPerCategory := by
  unfold capItem
  split
  · rename_i h
    exact (min_eq_right (le_of_lt h)).symm
  · rename_i h
    exact (min_eq_left (not_lt.mp h)).symm

@[simp] theorem scaleItem_category (total : ℤ) (it : CategoryRecipe) :
    (scaleItem total it).category = it.category := rfl

/-- On a non-negative count the truncation is the floor, so scaling is the lifted share. -/
theorem scaleItem_count {total : ℤ} {it : CategoryRecipe} (h : 0 ≤ it.count) :
    (scaleItem total it).count = FloorSums.liftedShare MaxAssetsTotal total it.count := by
  have hnn : 0 ≤ it.count * MaxAssetsTotal := mul_nonneg h (by decide)
  simp only [scaleItem, FloorSums.liftedShare, Int.tdiv_eq_ediv_of_nonneg hnn, gt_iff_lt]

/-- The counts after the per-category cap. -/
def cappedCounts (r : Recipe) : List ℤ :=
  r.items.elems.map fun it => min it.count MaxAssetsPerCategory

theorem totalCount_map_capItem (r : Recipe) :
    totalCount (r.items.map capItem).elems = (cappedCounts r).sum := by
  simp [totalCount, cappedCounts, Function.comp_def]

/-- Clamping keeps the items and their categories, in order. -/
theorem clampCounts_categories (r : Recipe) :
    (clampCounts r).items.elems.map (·.category) = r.items.elems.map (·.category) := by
  simp only [clampCounts]
  split <;> simp [Function.comp_def]

theorem cappedCounts_nonneg {r : Recipe} (h : ∀ it ∈ r.items.elems, 0 ≤ it.count) :
    ∀ c ∈ cappedCounts r, 0 ≤ c := by
  intro c hc
  obtain ⟨it, hit, rfl⟩ := List.mem_map.mp hc
  exact le_min (h it hit) (by decide)

/-- The counts after clamping: the capped counts, or their lifted shares when the capped total
exceeds the global cap. -/
theorem clampCounts_counts {r : Recipe} (h : ∀ it ∈ r.items.elems, 0 ≤ it.count) :
    (clampCounts r).items.elems.map (·.count) =
      if (cappedCounts r).sum ≤ MaxAssetsTotal then cappedCounts r
      else (cappedCounts r).map (FloorSums.liftedShare MaxAssetsTotal (cappedCounts r).sum) := by
  have hcap : (r.items.map capItem).elems.map (·.count) = cappedCounts r := by
    simp [cappedCounts, Function.comp_def]
  simp only [clampCounts, totalCount_map_capItem]
  by_cases hle : (cappedCounts r).sum ≤ MaxAssetsTotal
  · rw [if_pos (Or.inl hle), if_pos hle, hcap]
  · -- the guard `total == 0` adds nothing: `0` is within the cap
    have hne : (cappedCounts r).sum ≠ 0 := by
      intro h0
      exact hle (by rw [h0]; decide)
    rw [if_neg (not_or.mpr ⟨hle, hne⟩), if_neg hle]
    simp only [Slice.map_elems, List.map_map, cappedCounts]
    refine List.map_congr_left fun it hit => ?_
    have hnn : 0 ≤ (capItem it).count := by
      rw [capItem_count]
      exact le_min (h it hit) (by decide)
    simp only [Function.comp_apply]
    rw [scaleItem_count hnn, capItem_count]

theorem mem_clampCounts_count {r : Recipe} (h : ∀ it ∈ r.items.elems, 0 ≤ it.count)
    {it : CategoryRecipe} (hit : it ∈ (clampCounts r).items.elems) :
    ∃ c ∈ cappedCounts r, 0 ≤ it.count ∧ it.count ≤ c := by
  have hmem : it.count ∈ (clampCounts r).items.elems.map (·.count) :=
    List.mem_map_of_mem hit
  rw [clampCounts_counts h] at hmem
  by_cases hle : (cappedCounts r).sum ≤ MaxAssetsTotal
  · rw [if_pos hle] at hmem
    exact ⟨_, hmem, cappedCounts_nonneg h _ hmem, le_rfl⟩
  · rw [if_neg hle] at hmem
    obtain ⟨c, hc, hcount⟩ := List.mem_map.mp hmem
    have hnn := cappedCounts_nonneg h c hc
    have hM : MaxAssetsTotal ≤ (cappedCounts r).sum := le_of_not_ge hle
    rw [← hcount]
    exact ⟨c, hc, FloorSums.liftedShare_nonneg (by decide) (le_trans (by decide) hM) hnn,
      FloorSums.liftedShare_le (by decide) hM hnn⟩

/-- **Per-category cap.**  No count of a clamped recipe exceeds the category cap. -/
theorem clampCounts_count_le {r : Recipe} (h : ∀ it ∈ r.items.elems, 0 ≤ it.count) :
    ∀ it ∈ (clampCounts r).items.elems, it.count ≤ MaxAssetsPerCategory := by
  intro it hit
  obtain ⟨c, hc, _, hle⟩ := mem_clampCounts_count h hit
  obtain ⟨it₀, _, rfl⟩ := List.mem_map.mp hc
  exact hle.trans (min_le_right _ _)

theorem clampCounts_count_nonneg {r : Recipe} (h : ∀ it ∈ r.items.elems, 0 ≤ it.count) :
    ∀ it ∈ (clampCounts r).items.elems, 0 ≤ it.count := by
  intro it hit
  obtain ⟨_, _, hnn, _⟩ := mem_clampCounts_count h hit
  exact hnn

/-- Clamping an accepted recipe gives an accepted recipe. -/
theorem clampCounts_valid {man : Manifest} {r : Recipe} (h : ValidRecipe man r) :
    ValidRecipe man (clampCounts r) := by
  have hcat := clampCounts_categories r
  refine ⟨?_, ?_, ?_, clampCounts_count_nonneg h.nonneg⟩
  · intro hnil
    rw [hnil, List.map_nil, eq_comm, List.map_eq_nil_iff] at hcat
    exact h.nonempty hcat
  · intro it hit
    have hmem : it.category ∈ r.items.elems.map (·.category) := by
      rw [← hcat]
      exact List.mem_map_of_mem hit
    obtain ⟨it₀, hit₀, heq⟩ := List.mem_map.mp hmem
    rw [← heq]
    exact h.known it₀ hit₀
  · rw [hcat]
    exact h.distinct

/-- The lifts of small counts back to `1` do not outweigh what truncation takes: in units of
one `total`-th, the number of positive capped counts whose exact share is below `1`, times the
capped total, is at most the sum of the remainders of all shares. -/
def LiftsCovered (r : Recipe) : Prop :=
  (cappedCounts r).sum ≤ MaxAssetsTotal ∨
    (FloorSums.lifted MaxAssetsTotal (cappedCounts r).sum (cappedCounts r)).length
        * (cappedCounts r).sum ≤
      ((cappedCounts r).map fun c => c * MaxAssetsTotal % (cappedCounts r).sum).sum

/-- **Global cap.**  The clamped total stays within the global cap exactly when the lifts are
covered. -/
theorem clampCounts_total_le_iff {r : Recipe} (h : ∀ it ∈ r.items.elems, 0 ≤ it.count) :
    totalCount (clampCounts r).items.elems ≤ MaxAssetsTotal ↔ LiftsCovered r := by
  rw [totalCount, clampCounts_counts h, LiftsCovered]
  by_cases hle : (cappedCounts r).sum ≤ MaxAssetsTotal
  · rw [if_pos hle]
    simp only [hle, true_or]
  · have hpos : 0 < (cappedCounts r).sum := lt_of_lt_of_le (by decide) (le_of_not_ge hle)
    rw [if_neg hle, FloorSums.sum_liftedShare_le_iff (by decide) hpos]
    simp only [hle, false_or]

/-! ### Fairness -/

/-- What clamping makes of one count, for the capped total. -/
def clampCount (total c : ℤ) : ℤ :=
  if total ≤ MaxAssetsTotal then min c MaxAssetsPerCategory
  else FloorSums.liftedShare MaxAssetsTotal total (min c MaxAssetsPerCategory)

theorem clampCount_of_le {total c : ℤ} (h : total ≤ MaxAssetsTotal) :
    clampCount total c = min c MaxAssetsPerCategory := if_pos h

theorem clampCount_of_not_le {total c : ℤ} (h : ¬total ≤ MaxAssetsTotal) :
    clampCount total c =
      FloorSums.liftedShare MaxAssetsTotal total (min c MaxAssetsPerCategory) := if_neg h

theorem clampCount_mono {total a b : ℤ} (hab : a ≤ b) :
    clampCount total a ≤ clampCount total b := by
  have hmin : min a MaxAssetsPerCategory ≤ min b MaxAssetsPerCategory :=
    min_le_min_right _ hab
  by_cases hle : total ≤ MaxAssetsTotal
  · rw [clampCount_of_le hle, clampCount_of_le hle]
    exact hmin
  · rw [clampCount_of_not_le hle, clampCount_of_not_le hle]
    exact FloorSums.liftedShare_mono (by decide) (lt_trans (by decide) (not_le.mp hle)) hmin

theorem clampCount_nonneg {total c : ℤ} (hc : 0 ≤ c) : 0 ≤ clampCount total c := by
  have hmin : 0 ≤ min c MaxAssetsPerCategory := le_min hc (by decide)
  by_cases hle : total ≤ MaxAssetsTotal
  · rw [clampCount_of_le hle]
    exact hmin
  · rw [clampCount_of_not_le hle]
    exact FloorSums.liftedShare_nonneg (by decide) (le_trans (by decide) (le_of_not_ge hle)) hmin

theorem clampCount_le_cap {total c : ℤ} (hc : 0 ≤ c) :
    clampCount total c ≤ min c MaxAssetsPerCategory := by
  by_cases hle : total ≤ MaxAssetsTotal
  · rw [clampCount_of_le hle]
  · rw [clampCount_of_not_le hle]
    exact FloorSums.liftedShare_le (by decide) (le_of_not_ge hle) (le_min hc (by decide))

theorem clampCount_eq_zero_iff {total c : ℤ} (hc : 0 ≤ c) : clampCount total c = 0 ↔ c = 0 := by
  have hmin : min c MaxAssetsPerCategory = 0 ↔ c = 0 := by
    rw [MaxAssetsPerCategory]
    omega
  by_cases hle : total ≤ MaxAssetsTotal
  · rw [clampCount_of_le hle, hmin]
  · rw [clampCount_of_not_le hle,
      FloorSums.liftedShare_eq_zero_iff (le_min hc (by decide)), hmin]

/-- Clamping replaces every count by `clampCount` of it, and nothing else. -/
theorem clampCounts_eq {r : Recipe} (h : ∀ it ∈ r.items.elems, 0 ≤ it.count) :
    clampCounts r =
      ⟨r.items.map fun it => { it with count := clampCount (cappedCounts r).sum it.count }⟩ := by
  have hcap : ∀ it : CategoryRecipe, capItem it =
      { it with count := min it.count MaxAssetsPerCategory } := by
    intro it
    have hcount := capItem_count it
    unfold capItem at hcount ⊢
    split
    · rename_i hgt
      rw [if_pos hgt] at hcount
      rw [← hcount]
    · rename_i hle
      rw [if_neg hle] at hcount
      rw [← hcount]
  simp only [clampCounts, totalCount_map_capItem]
  by_cases hle : (cappedCounts r).sum ≤ MaxAssetsTotal
  · rw [if_pos (Or.inl hle)]
    refine congrArg Recipe.mk (Slice.ext_elems (List.map_congr_left fun it _ => ?_) rfl)
    rw [hcap, clampCount_of_le hle]
  · have hne : (cappedCounts r).sum ≠ 0 := by
      intro h0
      exact hle (by rw [h0]; decide)
    rw [if_neg (not_or.mpr ⟨hle, hne⟩)]
    refine congrArg Recipe.mk (Slice.ext_elems ?_ rfl)
    simp only [Slice.map_elems, List.map_map]
    refine List.map_congr_left fun it hit => ?_
    have hnn : 0 ≤ (capItem it).count := by
      rw [capItem_count]
      exact le_min (h it hit) (by decide)
    have hscaled : (scaleItem (cappedCounts r).sum (capItem it)).count =
        FloorSums.liftedShare MaxAssetsTotal (cappedCounts r).sum (capItem it).count :=
      scaleItem_count hnn
    rw [capItem_count, ← clampCount_of_not_le hle] at hscaled
    rw [Function.comp_apply, ← hscaled, hcap]
    rfl

/-- **Clamping is fair.**  It changes nothing but the counts, each by the same monotone function,
which never exceeds the count or the category cap and gives nothing only to nothing.  Within the
global cap that function is the category cap; above it, scaling loses less than one unit for each
item. -/
theorem clampCounts_fair (r : Recipe) (h : ∀ it ∈ r.items.elems, 0 ≤ it.count) :
    ∃ scaled : ℤ → ℤ,
      clampCounts r = ⟨r.items.map fun it => { it with count := scaled it.count }⟩ ∧
      (∀ a b, a ≤ b → scaled a ≤ scaled b) ∧
      (∀ c, 0 ≤ c →
        0 ≤ scaled c ∧ scaled c ≤ c ∧ scaled c ≤ MaxAssetsPerCategory ∧
          (scaled c = 0 ↔ c = 0)) ∧
      ((cappedCounts r).sum ≤ MaxAssetsTotal → ∀ c, scaled c = min c MaxAssetsPerCategory) ∧
      (MaxAssetsTotal < (cappedCounts r).sum →
        MaxAssetsTotal - r.items.len < totalCount (clampCounts r).items.elems) := by
  refine ⟨clampCount (cappedCounts r).sum, clampCounts_eq h,
    fun _ _ => clampCount_mono, ?_, fun hle c => clampCount_of_le hle, ?_⟩
  · intro c hc
    have hle : clampCount (cappedCounts r).sum c ≤ min c MaxAssetsPerCategory :=
      clampCount_le_cap hc
    exact ⟨clampCount_nonneg hc, hle.trans (min_le_left _ _), hle.trans (min_le_right _ _),
      clampCount_eq_zero_iff hc⟩
  · intro hgt
    have hpos : 0 < (cappedCounts r).sum := lt_trans (by decide) hgt
    have hne : cappedCounts r ≠ [] := by
      intro hnil
      rw [hnil, List.sum_nil] at hpos
      exact lt_irrefl 0 hpos
    have hlen : (cappedCounts r).length = r.items.len := List.length_map _
    rw [totalCount, clampCounts_counts h, if_neg (not_le.mpr hgt), ← hlen]
    exact FloorSums.lt_sum_liftedShare (by decide) hne hpos

/-- An orchard above both caps. -/
def orchardRecipe : Recipe :=
  ⟨.make [⟨"apple", 2500, 0, .nil⟩, ⟨"pear", 2000, 0, .nil⟩, ⟨"plum", 1500, 0, .nil⟩,
    ⟨"quince", 1, 0, .nil⟩]⟩

theorem clampCounts_fair_orchard :
    (clampCounts orchardRecipe).items.elems.map (·.count) = [1817, 1817, 1363, 1] ∧
      ∃ scaled : ℤ → ℤ,
        clampCounts orchardRecipe =
          ⟨orchardRecipe.items.map fun it => { it with count := scaled it.count }⟩ ∧
        (∀ a b, a ≤ b → scaled a ≤ scaled b) ∧
        (∀ c, 0 ≤ c →
          0 ≤ scaled c ∧ scaled c ≤ c ∧ scaled c ≤ MaxAssetsPerCategory ∧
            (scaled c = 0 ↔ c = 0)) ∧
        ((cappedCounts orchardRecipe).sum ≤ MaxAssetsTotal →
          ∀ c, scaled c = min c MaxAssetsPerCategory) ∧
        (MaxAssetsTotal < (cappedCounts orchardRecipe).sum →
          MaxAssetsTotal - orchardRecipe.items.len <
            totalCount (clampCounts orchardRecipe).items.elems) :=
  ⟨by decide, clampCounts_fair orchardRecipe (by decide)⟩

/-! ### Clamping again -/

theorem totalCount_nonneg {items : List CategoryRecipe} (h : ∀ it ∈ items, 0 ≤ it.count) :
    0 ≤ totalCount items := by
  refine List.sum_nonneg fun c hc => ?_
  obtain ⟨it, hit, rfl⟩ := List.mem_map.mp hc
  exact h it hit

/-- A clamped recipe is within the category cap, so its capped counts are its counts. -/
theorem cappedCounts_clampCounts {r : Recipe} (h : ∀ it ∈ r.items.elems, 0 ≤ it.count) :
    (cappedCounts (clampCounts r)).sum = totalCount (clampCounts r).items.elems := by
  refine congrArg List.sum (List.map_congr_left fun it hit => ?_)
  exact min_eq_left (clampCounts_count_le h it hit)

/-- A recipe that keeps every count is the recipe. -/
theorem clampCounts_eq_self_iff {r : Recipe} (h : ∀ it ∈ r.items.elems, 0 ≤ it.count) :
    clampCounts r = r ↔
      ∀ it ∈ r.items.elems, clampCount (cappedCounts r).sum it.count = it.count := by
  rw [clampCounts_eq h]
  constructor
  · intro heq it hit
    have helems : r.items.elems.map (fun it =>
        { it with count := clampCount (cappedCounts r).sum it.count }) = r.items.elems.map id :=
      (congrArg (fun r : Recipe => r.items.elems) heq).trans (List.map_id _).symm
    exact congrArg CategoryRecipe.count (List.map_inj_left.mp helems it hit)
  · intro hall
    refine congrArg Recipe.mk (Slice.ext_elems ?_ rfl)
    refine (List.map_congr_left fun it hit => ?_).trans (List.map_id _)
    rw [hall it hit]
    rfl

/-- **Clamping a clamped recipe** changes nothing exactly when the lifts are covered or nothing is
left to scale down. -/
theorem clampCounts_again_iff {r : Recipe} (h : ∀ it ∈ r.items.elems, 0 ≤ it.count) :
    clampCounts (clampCounts r) = clampCounts r ↔
      LiftsCovered r ∨ ∀ it ∈ (clampCounts r).items.elems, it.count ≤ 1 := by
  have hnonneg := clampCounts_count_nonneg h
  rw [clampCounts_eq_self_iff hnonneg, cappedCounts_clampCounts h, ← clampCounts_total_le_iff h]
  by_cases hle : totalCount (clampCounts r).items.elems ≤ MaxAssetsTotal
  · refine ⟨fun _ => .inl hle, fun _ it hit => ?_⟩
    rw [clampCount_of_le hle]
    exact min_eq_left (clampCounts_count_le h it hit)
  · have hitem : ∀ it ∈ (clampCounts r).items.elems,
        (clampCount (totalCount (clampCounts r).items.elems) it.count = it.count ↔
          it.count ≤ 1) := by
      intro it hit
      rw [clampCount_of_not_le hle, min_eq_left (clampCounts_count_le h it hit)]
      exact FloorSums.liftedShare_eq_self_iff (by decide) (not_le.mp hle) (hnonneg it hit)
    constructor
    · exact fun hall => .inr fun it hit => (hitem it hit).mp (hall it hit)
    · rintro (hcovered | hall) it hit
      · exact absurd hcovered hle
      · exact (hitem it hit).mpr (hall it hit)

theorem clampCounts_lowers_total {r : Recipe} (h : ∀ it ∈ r.items.elems, 0 ≤ it.count)
    (hne : clampCounts r ≠ r) :
    totalCount (clampCounts r).items.elems < totalCount r.items.elems := by
  have hle : ∀ it ∈ r.items.elems, clampCount (cappedCounts r).sum it.count ≤ it.count :=
    fun it hit => (clampCount_le_cap (h it hit)).trans (min_le_left _ _)
  have hlt : ∃ it ∈ r.items.elems, clampCount (cappedCounts r).sum it.count < it.count := by
    by_contra hnone
    push Not at hnone
    exact hne ((clampCounts_eq_self_iff h).mpr fun it hit =>
      le_antisymm (hle it hit) (hnone it hit))
  rw [clampCounts_eq h, totalCount, totalCount, Slice.map_elems, List.map_map]
  exact List.sum_lt_sum _ _ hle hlt

theorem clampCounts_settles (r : Recipe) (h : ∀ it ∈ r.items.elems, 0 ≤ it.count) :
    ∃ n, clampCounts (clampCounts^[n] r) = clampCounts^[n] r := by
  -- every clamping that changes something takes from the total
  induction hsize : (totalCount r.items.elems).toNat using Nat.strong_induction_on generalizing r
    with
  | _ size ih =>
    by_cases hsame : clampCounts r = r
    · exact ⟨0, hsame⟩
    · have hless := clampCounts_lowers_total h hsame
      have hnonneg := totalCount_nonneg (clampCounts_count_nonneg h)
      obtain ⟨n, hn⟩ := ih _ (by omega) (clampCounts r) (clampCounts_count_nonneg h) rfl
      exact ⟨n + 1, hn⟩

/-- **Clamping over and over.**  Clamping a clamped recipe changes nothing exactly when the lifts
are covered or nothing is left to scale down; and after some number of times nothing changes any
more. -/
theorem clampCounts_repeated (r : Recipe) (h : ∀ it ∈ r.items.elems, 0 ≤ it.count) :
    (clampCounts (clampCounts r) = clampCounts r ↔
      LiftsCovered r ∨ ∀ it ∈ (clampCounts r).items.elems, it.count ≤ 1) ∧
    ∃ n, ∀ m, n ≤ m → clampCounts^[m] r = clampCounts^[n] r := by
  refine ⟨clampCounts_again_iff h, ?_⟩
  obtain ⟨n, hn⟩ := clampCounts_settles r h
  refine ⟨n, fun m hm => ?_⟩
  induction m, hm using Nat.le_induction with
  | base => rfl
  | succ m _ ih => rw [Function.iterate_succ_apply', ih, hn]

/-- Three trees at the category cap among six small things. -/
def hedgeRecipe : Recipe :=
  ⟨.make [⟨"oak", 2000, 0, .nil⟩, ⟨"elm", 2000, 0, .nil⟩, ⟨"ash", 2000, 0, .nil⟩,
    ⟨"fox", 1, 0, .nil⟩, ⟨"owl", 1, 0, .nil⟩, ⟨"hen", 1, 0, .nil⟩, ⟨"bee", 1, 0, .nil⟩,
    ⟨"ant", 1, 0, .nil⟩, ⟨"elk", 1, 0, .nil⟩]⟩

/-- One unit too many after the first clamping, and three more gone after the second. -/
theorem clampCounts_repeated_hedge :
    (totalCount (clampCounts hedgeRecipe).items.elems = 5001 ∧
      totalCount (clampCounts (clampCounts hedgeRecipe)).items.elems = 4998) ∧
    (clampCounts (clampCounts hedgeRecipe) = clampCounts hedgeRecipe ↔
      LiftsCovered hedgeRecipe ∨ ∀ it ∈ (clampCounts hedgeRecipe).items.elems, it.count ≤ 1) ∧
    ∃ n, ∀ m, n ≤ m → clampCounts^[m] hedgeRecipe = clampCounts^[n] hedgeRecipe :=
  ⟨by decide, clampCounts_repeated hedgeRecipe (by decide)⟩

end AetherForge
