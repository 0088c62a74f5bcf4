import AetherForge.Backend.Layouts

/-!
# Items that place nothing

An accepted recipe may hold items of count `0`.  Such an item takes part in the sort, in the
choice of the hash's cell size and in the bounds check of its turn, and places nothing.

* `placeItems_alike` — under hashes made for different radii, and with the items of count `0`
  left out, the item loop goes through the same draws and the same entries (`Alike`), as long as
  the bounds check stops at none of those items;
* `place_dropZeroCounts` — hence the placement is the same without them;
* `zeroCounts_neutral_iff` — when exactly leaving them out makes no difference; `shadedRecipe`
  fails for an item that places nothing.
-/

namespace AetherForge

open Go GridCells

/-! ### Two runs under different hashes -/

section Alike

variable {D : Draws} {bounds : Bounds} {manifest : Manifest} {maxR maxR' : ℚ}

/-- Two runs at the same point, each under the invariant of its own hash. -/
structure Alike (manifest : Manifest) (maxR maxR' : ℚ) (st st' : Progress D) : Prop where
  inv : PlaceInv manifest maxR st
  inv' : PlaceInv manifest maxR' st'
  rng : st.rng = st'.rng
  entries : st.entries = st'.entries

/-- Two runs that end alike: at the same point, or with the same error. -/
inductive EndAlike (manifest : Manifest) (maxR maxR' : ℚ) :
    Except PlaceError (Progress D) → Except PlaceError (Progress D) → Prop
  | ok {st st' : Progress D} (h : Alike manifest maxR maxR' st st') :
    EndAlike manifest maxR maxR' (.ok st) (.ok st')
  | error (e : PlaceError) : EndAlike manifest maxR maxR' (.error e) (.error e)

theorem EndAlike.bind {x y : Except PlaceError (Progress D)}
    {f g : Progress D → Except PlaceError (Progress D)} (h : EndAlike manifest maxR maxR' x y)
    (hfg : ∀ {st st'}, Alike manifest maxR maxR' st st' →
      EndAlike manifest maxR maxR' (f st) (g st')) :
    EndAlike manifest maxR maxR' (x.bind f) (y.bind g) := by
  cases h with
  | ok h => exact hfg h
  | error e => exact .error e

theorem EndAlike.map_entries {x y : Except PlaceError (Progress D)}
    (h : EndAlike manifest maxR maxR' x y) : x.map (·.entries) = y.map (·.entries) := by
  cases h with
  | ok h => exact congrArg Except.ok h.entries
  | error e => rfl

/-- The two hashes answer alike. -/
theorem Alike.overlaps_eq {st st' : Progress D} (h : Alike manifest maxR maxR' st st') {r : ℚ}
    (hr : 0 ≤ r) (x y : ℚ) : st.hash.overlaps x y r = st'.hash.overlaps x y r := by
  rw [Bool.eq_iff_iff, h.inv.overlaps_iff hr, h.inv'.overlaps_iff hr, h.entries]

/-- The attempt loop sees its hash through the answers only. -/
theorem throwDarts_congr {it : CategoryRecipe} {r : ℚ} {area : Area} {hash hash' : SpatialHash}
    (h : ∀ x y, hash.overlaps x y r = hash'.overlaps x y r) {anchors : List Placed}
    {attempts : ℕ} {s : D.State} :
    throwDarts D it r area hash anchors attempts s =
      throwDarts D it r area hash' anchors attempts s := by
  induction attempts generalizing s with
  | zero => rfl
  | succ n ih => simp only [throwDarts, h, ih]

/-- **Step lemma.**  Accepting the same dart keeps the runs alike. -/
theorem Alike.accept {st st' : Progress D} (h : Alike manifest maxR maxR' st st')
    {it : CategoryRecipe} (hr : 0 ≤ radius manifest it.category)
    (hmax : radius manifest it.category ≤ maxR) (hmax' : radius manifest it.category ≤ maxR')
    {d : (ℚ × ℚ) × D.State}
    (hfree : st.hash.overlaps d.1.1 d.1.2 (radius manifest it.category) = false) :
    Alike manifest maxR maxR' (st.accept it (manifest.getD it.category default) d)
      (st'.accept it (manifest.getD it.category default) d) := by
  have hfree' := (h.overlaps_eq hr d.1.1 d.1.2).symm.trans hfree
  refine ⟨h.inv.accept rfl hr hmax hfree, h.inv'.accept rfl hr hmax' hfree', rfl, ?_⟩
  simp only [Progress.accept, h.entries]

theorem placeItem_alike {it : CategoryRecipe} (hr : 0 ≤ radius manifest it.category)
    (hmax : radius manifest it.category ≤ maxR) (hmax' : radius manifest it.category ≤ maxR')
    {n : ℕ} {anchors : List Placed} {st st' : Progress D}
    (h : Alike manifest maxR maxR' st st') :
    EndAlike manifest maxR maxR' (placeItem bounds manifest it n anchors st)
      (placeItem bounds manifest it n anchors st') := by
  induction n generalizing anchors st st' with
  | zero => exact .ok h
  | succ n ih =>
    rw [placeItem_succ, placeItem_succ, ← h.rng,
      ← throwDarts_congr (h.overlaps_eq hr)]
    cases hd : throwDarts D it (radius manifest it.category)
        (footprintArea bounds (radius manifest it.category)) st.hash anchors maxAttempts
        st.rng with
    | none => exact .error _
    | some d => exact ih (h.accept hr hmax hmax' (throwDarts_free hd))

/-- **Run lemma.**  Leaving out items of count `0` that fit the bounds changes nothing. -/
theorem placeItems_alike {items : List CategoryRecipe}
    (hradii : RadiiWithin manifest maxR items)
    (hradii' : RadiiWithin manifest maxR' (items.filter fun it => it.count ≠ 0))
    (hfit : ∀ it ∈ items, it.count = 0 → Fits bounds (radius manifest it.category))
    {st st' : Progress D} (h : Alike manifest maxR maxR' st st') :
    EndAlike manifest maxR maxR' (placeItems bounds manifest items st)
      (placeItems bounds manifest (items.filter fun it => it.count ≠ 0) st') := by
  induction items generalizing st st' with
  | nil => exact .ok h
  | cons it rest ih =>
    obtain ⟨hit, hrest⟩ := List.forall_mem_cons.mp hradii
    obtain ⟨hzero, hfit⟩ := List.forall_mem_cons.mp hfit
    by_cases hc : it.count = 0
    · -- the item's turn passes the bounds check and places nothing
      have hskip : placeItems bounds manifest (it :: rest) st =
          placeItems bounds manifest rest st := by
        rw [placeItems_cons_of_fits (hzero hc), hc]
        rfl
      rw [List.filter_cons_of_neg (by simp [hc])] at hradii' ⊢
      rw [hskip]
      exact ih hrest hradii' hfit h
    · rw [List.filter_cons_of_pos (by simp [hc])] at hradii' ⊢
      obtain ⟨hit', hrest'⟩ := List.forall_mem_cons.mp hradii'
      by_cases hfits : Fits bounds (radius manifest it.category)
      · rw [placeItems_cons_of_fits hfits, placeItems_cons_of_fits hfits]
        exact (placeItem_alike hit.1 hit.2 hit'.2 h).bind fun h₁ => ih hrest hrest' hfit h₁
      · rw [placeItems_cons_of_not_fits hfits, placeItems_cons_of_not_fits hfits]
        exact .error _

end Alike

/-! ### The placement without them -/

section ZeroCounts

variable {D : Draws} {bounds : Bounds} {manifest : Manifest} {recipe : Recipe} {seed : ℤ}

/-- The recipe without its items of count `0`. -/
def dropZeroCounts (r : Recipe) : Recipe :=
  ⟨.make (r.items.elems.filter fun it => it.count ≠ 0)⟩

theorem mem_dropZeroCounts {it : CategoryRecipe} :
    it ∈ (dropZeroCounts recipe).items.elems ↔ it ∈ recipe.items.elems ∧ it.count ≠ 0 := by
  simp only [dropZeroCounts, Slice.make_elems, List.mem_filter, decide_eq_true_eq]

/-- A placement whose categories are all known is its item loop. -/
theorem place_eq_of_known (D : Draws) (bounds : Bounds) (seed : ℤ)
    (hknown : ∀ it ∈ recipe.items.elems, (manifest.get? it.category).isSome) :
    ∃ maxR, largestRadius manifest 0 (placementOrder manifest recipe.items.elems) = .ok maxR ∧
      place D recipe seed bounds manifest =
        (placeItems bounds manifest (placementOrder manifest recipe.items.elems)
          (placeStart D seed maxR)).map (·.entries) := by
  cases hmax : largestRadius manifest 0 (placementOrder manifest recipe.items.elems) with
  | error e =>
    obtain ⟨it, hit, hnone, _⟩ := largestRadius_error hmax
    have hsome := hknown it (mem_placementOrder.mp hit)
    rw [hnone] at hsome
    cases hsome
  | ok maxR =>
    refine ⟨maxR, rfl, ?_⟩
    simp only [place, hmax]
    unfold placeStart
    cases placeItems bounds manifest (placementOrder manifest recipe.items.elems)
      ⟨D.newPCG (UInt64.ofInt seed) 0x9e3779b97f4a7c15, newSpatialHash maxR, []⟩ <;> rfl

theorem known_dropZeroCounts
    (hknown : ∀ it ∈ recipe.items.elems, (manifest.get? it.category).isSome) :
    ∀ it ∈ (dropZeroCounts recipe).items.elems, (manifest.get? it.category).isSome :=
  fun it hit => hknown it (mem_dropZeroCounts.mp hit).1

/-- Every item of count `0` passes the bounds check. -/
def ZeroCountsFit (bounds : Bounds) (manifest : Manifest) (r : Recipe) : Prop :=
  ∀ it ∈ r.items.elems, it.count = 0 → Fits bounds (radius manifest it.category)

instance (bounds : Bounds) (manifest : Manifest) (r : Recipe) :
    Decidable (ZeroCountsFit bounds manifest r) :=
  inferInstanceAs (Decidable (∀ it ∈ _, _ → _ ∧ _))

/-- **Neutral items.**  When every item of count `0` fits the bounds, leaving them out changes
neither the entries nor the error. -/
theorem place_dropZeroCounts (hvalid : ValidRecipe manifest recipe)
    (hradii : NonnegRadii manifest) (hfit : ZeroCountsFit bounds manifest recipe) :
    place D recipe seed bounds manifest = place D (dropZeroCounts recipe) seed bounds manifest := by
  obtain ⟨maxR, hmax, hplace⟩ := place_eq_of_known D bounds seed hvalid.known
  obtain ⟨maxR', hmax', hplace'⟩ :=
    place_eq_of_known D bounds seed (known_dropZeroCounts hvalid.known)
  have horder : placementOrder manifest (dropZeroCounts recipe).items.elems =
      (placementOrder manifest recipe.items.elems).filter fun it => it.count ≠ 0 :=
    placementOrder_filter _ hvalid.distinct
  have hwithin' := radiiWithin_of_largestRadius hradii hmax'
  rw [horder] at hwithin'
  have halike := placeItems_alike
    (radiiWithin_of_largestRadius hradii hmax) hwithin'
    (fun it hit => hfit it (mem_placementOrder.mp hit))
    ⟨PlaceInv.start manifest maxR (D.newPCG (UInt64.ofInt seed) 0x9e3779b97f4a7c15),
      PlaceInv.start manifest maxR' _, rfl, rfl⟩
  rw [hplace, hplace', horder]
  exact halike.map_entries

/-- An item that does not fit fails the item loop, whatever its count. -/
theorem placeItems_error_of_not_fits {items : List CategoryRecipe} {it : CategoryRecipe}
    (hit : it ∈ items) (hfit : ¬Fits bounds (radius manifest it.category)) (st : Progress D) :
    ∃ e, placeItems bounds manifest items st = .error e := by
  induction items generalizing st with
  | nil => cases hit
  | cons it₀ rest ih =>
    by_cases hfit₀ : Fits bounds (radius manifest it₀.category)
    · rw [placeItems_cons_of_fits hfit₀]
      cases placeItem bounds manifest it₀ it₀.count.toNat [] st with
      | error e => exact ⟨e, rfl⟩
      | ok st₁ =>
        rcases List.mem_cons.mp hit with rfl | hrest
        · exact absurd hfit₀ hfit
        · exact ih hrest st₁
    · exact ⟨_, placeItems_cons_of_not_fits hfit₀⟩

theorem place_toOption_of_not_fits (hknown : ∀ it ∈ recipe.items.elems,
      (manifest.get? it.category).isSome)
    {it : CategoryRecipe} (hit : it ∈ recipe.items.elems)
    (hfit : ¬Fits bounds (radius manifest it.category)) :
    (place D recipe seed bounds manifest).toOption = none := by
  obtain ⟨maxR, _, hplace⟩ := place_eq_of_known D bounds seed hknown
  obtain ⟨e, he⟩ :=
    placeItems_error_of_not_fits (mem_placementOrder.mpr hit) hfit (placeStart D seed maxR)
  rw [hplace, he]
  rfl

/-- Where the draws of a placement start. -/
def firstDraw (D : Draws) (seed : ℤ) : D.State := D.newPCG (UInt64.ofInt seed) 0x9e3779b97f4a7c15

/-- Items of count `0` ask for no instance. -/
theorem instances_filter (items : List CategoryRecipe) :
    instances (items.filter fun it => it.count ≠ 0) = instances items := by
  induction items with
  | nil => rfl
  | cons it rest ih =>
    by_cases hc : it.count = 0
    · rw [List.filter_cons_of_neg (by simp [hc]), ih, instances, instances, List.flatMap_cons, hc]
      rfl
    · rw [List.filter_cons_of_pos (by simp [hc]), instances, instances, List.flatMap_cons,
        List.flatMap_cons]
      exact congrArg _ ih

/-- **Why the items that place something fail**: one of them does not fit, or the draws leave one
of their instances no candidate that is free. -/
theorem place_dropZeroCounts_fails_iff (hvalid : ValidRecipe manifest recipe)
    (hradii : NonnegRadii manifest) :
    (place D (dropZeroCounts recipe) seed bounds manifest).toOption = none ↔
      (∃ it ∈ recipe.items.elems, it.count ≠ 0 ∧ ¬Fits bounds (radius manifest it.category)) ∨
        Obstructed D bounds manifest (firstDraw D seed)
          (instances (placementOrder manifest recipe.items.elems)) := by
  have hknown := known_dropZeroCounts hvalid.known
  by_cases hbad : ∃ it ∈ recipe.items.elems, it.count ≠ 0 ∧
      ¬Fits bounds (radius manifest it.category)
  · obtain ⟨it, hit, hc, hfit⟩ := hbad
    exact iff_of_true
      (place_toOption_of_not_fits hknown (mem_dropZeroCounts.mpr ⟨hit, hc⟩) hfit)
      (.inl ⟨it, hit, hc, hfit⟩)
  rw [or_iff_right hbad]
  obtain ⟨maxR, hmax, hplace⟩ := place_eq_of_known D bounds seed hknown
  have horder : placementOrder manifest (dropZeroCounts recipe).items.elems =
      (placementOrder manifest recipe.items.elems).filter fun it => it.count ≠ 0 :=
    placementOrder_filter _ hvalid.distinct
  have hwithin := radiiWithin_of_largestRadius hradii hmax
  rw [horder] at hwithin hplace
  have hfit : ∀ it ∈ (placementOrder manifest recipe.items.elems).filter fun it => it.count ≠ 0,
      Fits bounds (radius manifest it.category) := by
    intro it hit
    obtain ⟨hmem, hc⟩ := List.mem_filter.mp hit
    by_contra hnot
    exact hbad ⟨it, mem_placementOrder.mp hmem, of_decide_eq_true hc, hnot⟩
  have hdistinct : (((placementOrder manifest recipe.items.elems).filter
      fun it => it.count ≠ 0).map (·.category)).Nodup := by
    have hall : ((placementOrder manifest recipe.items.elems).map (·.category)).Nodup :=
      ((List.perm_insertionSort _ _).map _).nodup_iff.mpr hvalid.distinct
    exact hall.sublist (List.filter_sublist.map _)
  rw [hplace, ← instances_filter, ← placeItems_eq_error_iff hwithin hfit hdistinct]
  show (Except.map _
    (placeItems bounds manifest _ (⟨firstDraw D seed, _, _⟩ : Progress D))).toOption = none ↔ _
  cases placeItems bounds manifest
    ((placementOrder manifest recipe.items.elems).filter fun it => it.count ≠ 0)
    (⟨firstDraw D seed, newSpatialHash maxR, []⟩ : Progress D) with
  | ok st => exact iff_of_false (fun h => by cases h) fun ⟨_, h⟩ => by cases h
  | error e => exact iff_of_true rfl ⟨e, rfl⟩

/-- A shrub, and no dog. -/
def shadedRecipe : Recipe := ⟨.make [⟨"shrub", 1, 0, .nil⟩, ⟨"dog", 0, 0, .nil⟩]⟩

/-- A clearing with room for a shrub, too small for a dog. -/
def clearingBounds : Bounds := ⟨⟨0, 0⟩, ⟨3, 3⟩⟩

theorem shadedRecipe_fits : ZeroCountsFit meadowBounds meadowManifest shadedRecipe := by
  decide +kernel

end ZeroCounts

end AetherForge
