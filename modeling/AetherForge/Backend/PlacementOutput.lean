import AetherForge.Backend.PlacementOrder

/-!
# What a placement is, and why it fails

The output of `Place` is exact: which categories in which order (`place_categories`), where each
footprint lies, what each entry carries.  Its failures are the three the loops can run into.

* `dart_mem` — every candidate lies in the area that keeps the footprint inside the bounds, on
  the uniform branch and on the clamped one;
* `FromItem` — what an emitted entry is; accepting a dart emits such an entry
  (`fromItem_accept`), hence all entries of a placement are (`place_fromItem`);
* `Stuck` — an instance all of whose candidates overlap footprints already placed;
* `place_exact` — the exact output, and the exact causes of failure.
-/

namespace AetherForge

open Go GridCells

/-! ### Candidates -/

/-- A footprint of radius `r` fits the bounds. -/
def Fits (b : Bounds) (r : ℚ) : Prop :=
  b.min.x + r ≤ b.max.x - r ∧ b.min.y + r ≤ b.max.y - r

/-- A disc lies entirely in the bounds. -/
def InBounds (b : Bounds) (p : Placed) : Prop :=
  (b.min.x + p.r ≤ p.x ∧ p.x ≤ b.max.x - p.r) ∧ (b.min.y + p.r ≤ p.y ∧ p.y ≤ b.max.y - p.r)

theorem clamp_mem {v lo hi : ℚ} (h : lo ≤ hi) : lo ≤ clamp v lo hi ∧ clamp v lo hi ≤ hi := by
  unfold clamp
  split
  · exact ⟨le_rfl, h⟩
  · rename_i hlo
    split
    · exact ⟨h, le_rfl⟩
    · rename_i hhi
      exact ⟨not_lt.mp hlo, not_lt.mp hhi⟩

/-- A fraction of the way from `lo` to `hi`. -/
theorem lerp_mem {lo hi : ℚ} (h : lo ≤ hi) (u : {u : ℚ // 0 ≤ u ∧ u < 1}) :
    lo ≤ lo + u.val * (hi - lo) ∧ lo + u.val * (hi - lo) ≤ hi := by
  have hwidth : 0 ≤ hi - lo := sub_nonneg.mpr h
  have hpart : u.val * (hi - lo) ≤ 1 * (hi - lo) :=
    mul_le_mul_of_nonneg_right (le_of_lt u.property.2) hwidth
  constructor
  · exact le_add_of_nonneg_right (mul_nonneg u.property.1 hwidth)
  · linarith

section Place

variable {D : Draws} {it : CategoryRecipe} {r : ℚ} {bounds : Bounds} {anchors : List Placed}

/-- **Every candidate is inside**, on either branch. -/
theorem dart_mem (hfit : Fits bounds r) (s : D.State) :
    InBounds bounds ⟨(dart D it r (footprintArea bounds r) anchors s).1.1,
      (dart D it r (footprintArea bounds r) anchors s).1.2, r⟩ := by
  have huniform : ∀ s, InBounds bounds ⟨(uniformDart D (footprintArea bounds r) s).1.1,
      (uniformDart D (footprintArea bounds r) s).1.2, r⟩ := fun s =>
    ⟨lerp_mem hfit.1 _, lerp_mem hfit.2 _⟩
  unfold dart
  split
  · rename_i h
    simp only
    split
    · exact ⟨clamp_mem hfit.1, clamp_mem hfit.2⟩
    · exact huniform _
  · exact huniform _

theorem throwDarts_mem (hfit : Fits bounds r) {hash : SpatialHash} {attempts : ℕ} {s : D.State}
    {d : (ℚ × ℚ) × D.State}
    (h : throwDarts D it r (footprintArea bounds r) hash anchors attempts s = some d) :
    InBounds bounds ⟨d.1.1, d.1.2, r⟩ := by
  induction attempts generalizing s with
  | zero => cases h
  | succ n ih =>
    rw [throwDarts] at h
    split at h
    · exact ih h
    · cases h
      exact dart_mem hfit s

/-- The candidates of an instance, in the order they are thrown. -/
def candidates (D : Draws) (it : CategoryRecipe) (r : ℚ) (area : Area) (anchors : List Placed) :
    ℕ → D.State → List (ℚ × ℚ)
  | 0, _ => []
  | attempts + 1, s =>
    let d := dart D it r area anchors s
    d.1 :: candidates D it r area anchors attempts d.2

/-- The attempts are exhausted exactly when every candidate overlaps. -/
theorem throwDarts_eq_none_iff {area : Area} {hash : SpatialHash} {attempts : ℕ} {s : D.State} :
    throwDarts D it r area hash anchors attempts s = none ↔
      ∀ c ∈ candidates D it r area anchors attempts s, hash.overlaps c.1 c.2 r = true := by
  induction attempts generalizing s with
  | zero => simp [throwDarts, candidates]
  | succ n ih =>
    simp only [throwDarts, candidates, List.forall_mem_cons]
    split
    · rename_i hov
      rw [ih]
      exact ⟨fun h => ⟨hov, h⟩, And.right⟩
    · rename_i hov
      simp [hov]

end Place

/-! ### What an entry is -/

section Entries

variable {D : Draws} {bounds : Bounds} {manifest : Manifest} {items : List CategoryRecipe}

/-- An entry emitted for one of the items. -/
structure FromItem (bounds : Bounds) (manifest : Manifest) (items : List CategoryRecipe)
    (e : AssetEntry) : Prop where
  inBounds : InBounds bounds (footprint manifest e)
  groundSnap : e.groundSnap = (manifest.getD e.category default).groundSnap
  tags : ∃ it ∈ items, it.category = e.category ∧ e.tags = .make it.tags.elems
  yaw : 0 ≤ e.transform.yaw ∧ e.transform.yaw < 360
  scale : 85 / 100 ≤ e.transform.scale ∧ e.transform.scale < 125 / 100

/-- **Step lemma.**  Accepting a dart inside the bounds emits an entry of its item. -/
theorem fromItem_accept {it : CategoryRecipe} (hit : it ∈ items) {st : Progress D}
    {d : (ℚ × ℚ) × D.State}
    (hd : InBounds bounds ⟨d.1.1, d.1.2, radius manifest it.category⟩)
    (hst : ∀ e ∈ st.entries, FromItem bounds manifest items e) :
    ∀ e ∈ (st.accept it (manifest.getD it.category default) d).entries,
      FromItem bounds manifest items e := by
  intro e he
  rcases List.mem_append.mp he with hold | hnew
  · exact hst e hold
  rw [List.mem_singleton.mp hnew]
  refine ⟨hd, rfl, ⟨it, hit, rfl, rfl⟩, ?_, ?_⟩
  · have hu := (D.float64 d.2).1.property
    exact ⟨mul_nonneg hu.1 (by norm_num), by linarith [hu.2]⟩
  · have hu := (D.float64 (D.float64 d.2).2).1.property
    simp only [scaleMin, scaleMax]
    constructor <;> linarith [hu.1, hu.2]

theorem placeInstances_fromItem {it : CategoryRecipe} (hit : it ∈ items)
    (hfit : Fits bounds (radius manifest it.category)) {n : ℕ} {anchors : List Placed}
    {st st' : Progress D} (hst : ∀ e ∈ st.entries, FromItem bounds manifest items e)
    (h : placeInstances it (manifest.getD it.category default)
      (footprintArea bounds (radius manifest it.category)) n anchors st = .ok st') :
    ∀ e ∈ st'.entries, FromItem bounds manifest items e := by
  induction n generalizing anchors st with
  | zero =>
    cases h
    exact hst
  | succ n ih =>
    rw [placeInstances] at h
    split at h
    · cases h
    · rename_i d hd
      exact ih (fromItem_accept hit (throwDarts_mem hfit hd) hst) h

theorem not_fits_iff {r : ℚ} :
    (footprintArea bounds r).loX > (footprintArea bounds r).hiX ∨
      (footprintArea bounds r).loY > (footprintArea bounds r).hiY ↔ ¬Fits bounds r := by
  rw [Fits, not_and_or, not_le, not_le]
  rfl

theorem placeItems_fromItem {part : List CategoryRecipe} (hsub : part ⊆ items)
    {st st' : Progress D} (hst : ∀ e ∈ st.entries, FromItem bounds manifest items e)
    (h : placeItems bounds manifest part st = .ok st') :
    ∀ e ∈ st'.entries, FromItem bounds manifest items e := by
  induction part generalizing st with
  | nil =>
    cases h
    exact hst
  | cons it rest ih =>
    obtain ⟨hit, hrest⟩ := List.cons_subset.mp hsub
    simp only [placeItems] at h
    split at h
    · cases h
    · rename_i hguard
      have hfit : Fits bounds (radius manifest it.category) :=
        not_not.mp (mt not_fits_iff.mpr hguard)
      split at h
      · cases h
      · rename_i st₁ hinst
        exact ih hrest (placeInstances_fromItem hit hfit hst hinst) h

/-- Every entry of a successful placement comes from an item. -/
theorem place_fromItem {recipe : Recipe} {seed : ℤ} {entries : List AssetEntry}
    (h : place D recipe seed bounds manifest = .ok entries) :
    ∀ e ∈ entries, FromItem bounds manifest recipe.items.elems e := by
  obtain ⟨maxR, st, _, hst, rfl⟩ := place_ok h
  exact placeItems_fromItem (fun it hit => mem_placementOrder.mp hit) (by simp) hst

end Entries

/-! ### Why a placement fails -/

section Failure

variable {D : Draws} {bounds : Bounds} {manifest : Manifest} {maxR : ℚ}

/-- The instance loop on one item of the recipe. -/
def placeItem (bounds : Bounds) (manifest : Manifest) (it : CategoryRecipe) (n : ℕ)
    (anchors : List Placed) (st : Progress D) : Except PlaceError (Progress D) :=
  placeInstances it (manifest.getD it.category default)
    (footprintArea bounds (radius manifest it.category)) n anchors st

/-- An item's turn: the bounds check, then the instance loop. -/
theorem placeItems_cons_of_fits {it : CategoryRecipe} {rest : List CategoryRecipe}
    {st : Progress D} (hfit : Fits bounds (radius manifest it.category)) :
    placeItems bounds manifest (it :: rest) st =
      (placeItem bounds manifest it it.count.toNat [] st).bind
        (placeItems bounds manifest rest) := by
  have hguard := mt not_fits_iff.mp (not_not.mpr hfit)
  simp only [placeItems]
  refine (if_neg hguard).trans ?_
  unfold placeItem radius
  cases placeInstances it (manifest.getD it.category default)
      (footprintArea bounds (manifest.getD it.category default).footprintRadius)
      it.count.toNat [] st with
  | error e => rfl
  | ok st₁ => rfl

theorem placeItems_cons_of_not_fits {it : CategoryRecipe} {rest : List CategoryRecipe}
    {st : Progress D} (hfit : ¬Fits bounds (radius manifest it.category)) :
    placeItems bounds manifest (it :: rest) st =
      .error ⟨it.category, "bounds too small for footprint"⟩ := by
  simp only [placeItems]
  exact if_pos (not_fits_iff.mpr hfit)

/-- All candidates of the next instance overlap a footprint placed before it; `first` is the
progress when the item's turn came, `now` the progress since. -/
def OutOfAttempts (bounds : Bounds) (manifest : Manifest) (it : CategoryRecipe)
    (first now : Progress D) : Prop :=
  ∀ c ∈ candidates D it (radius manifest it.category)
      (footprintArea bounds (radius manifest it.category))
      ((now.entries.drop first.entries.length).map (footprint manifest)) maxAttempts now.rng,
    ∃ e ∈ now.entries,
      Disc.Overlaps ⟨c.1, c.2, radius manifest it.category⟩ (footprint manifest e)

/-- Some instance of one of the items is out of attempts: the items `before` it have been placed,
and so have its own first `n` instances. -/
def Stuck (bounds : Bounds) (manifest : Manifest) (items : List CategoryRecipe)
    (start : Progress D) (it : CategoryRecipe) : Prop :=
  ∃ before after first n now, items = before ++ it :: after ∧
    placeItems bounds manifest before start = .ok first ∧
    Fits bounds (radius manifest it.category) ∧ n < it.count.toNat ∧
    placeItem bounds manifest it n [] first = .ok now ∧
    OutOfAttempts bounds manifest it first now

/-- The instance loop has placed `now`'s entries after `first`'s, as its anchors say. -/
def Anchored (manifest : Manifest) (first now : Progress D) (anchors : List Placed) : Prop :=
  first.entries <+: now.entries ∧
    anchors = (now.entries.drop first.entries.length).map (footprint manifest)

theorem Anchored.start (first : Progress D) : Anchored manifest first first [] := by
  refine ⟨List.prefix_rfl, ?_⟩
  rw [List.drop_length, List.map_nil]

theorem Anchored.accept {first now : Progress D} {anchors : List Placed}
    (h : Anchored manifest first now anchors) (it : CategoryRecipe) (d : (ℚ × ℚ) × D.State) :
    Anchored manifest first (now.accept it (manifest.getD it.category default) d)
      (anchors ++ [⟨d.1.1, d.1.2, radius manifest it.category⟩]) := by
  refine ⟨h.1.trans (List.prefix_append _ _), ?_⟩
  rw [h.2, Progress.accept, List.drop_append_of_le_length h.1.length_le, List.map_append]
  rfl

/-- The hash answers as a scan of the entries placed so far. -/
theorem PlaceInv.overlaps_iff {now : Progress D} (h : PlaceInv manifest maxR now) {x y r : ℚ}
    (hr : 0 ≤ r) :
    now.hash.overlaps x y r = true ↔
      ∃ e ∈ now.entries, Disc.Overlaps ⟨x, y, r⟩ (footprint manifest e) := by
  rw [SpatialHash.overlaps_iff h.represents hr]
  simp only [List.mem_map, exists_exists_and_eq_and]

/-- The attempt loop gives up exactly when the instance is out of attempts. -/
theorem throwDarts_eq_none_iff_outOfAttempts {it : CategoryRecipe} {first now : Progress D}
    {anchors : List Placed} (hinv : PlaceInv manifest maxR now)
    (hr : 0 ≤ radius manifest it.category) (hanch : Anchored manifest first now anchors) :
    throwDarts D it (radius manifest it.category)
        (footprintArea bounds (radius manifest it.category)) now.hash anchors maxAttempts
        now.rng = none ↔
      OutOfAttempts bounds manifest it first now := by
  rw [throwDarts_eq_none_iff, hanch.2, OutOfAttempts]
  exact forall₂_congr fun c _ => hinv.overlaps_iff hr

theorem placeItem_succ {it : CategoryRecipe} {n : ℕ} {anchors : List Placed} {st : Progress D} :
    placeItem bounds manifest it (n + 1) anchors st =
      match throwDarts D it (radius manifest it.category)
          (footprintArea bounds (radius manifest it.category)) st.hash anchors maxAttempts
          st.rng with
      | none =>
        .error ⟨it.category, "could not fit footprint after max attempts (area overcrowded)"⟩
      | some d => placeItem bounds manifest it n
          (anchors ++ [⟨d.1.1, d.1.2, radius manifest it.category⟩])
          (st.accept it (manifest.getD it.category default) d) := rfl

/-- An item's instances fail at the first one that is out of attempts. -/
theorem placeItem_error {it : CategoryRecipe} (hr : 0 ≤ radius manifest it.category)
    (hmax : radius manifest it.category ≤ maxR) {first now : Progress D} {n : ℕ}
    {anchors : List Placed} {e : PlaceError} (hinv : PlaceInv manifest maxR now)
    (hanch : Anchored manifest first now anchors)
    (h : placeItem bounds manifest it n anchors now = .error e) :
    e = ⟨it.category, "could not fit footprint after max attempts (area overcrowded)"⟩ ∧
      ∃ k < n, ∃ now', placeItem bounds manifest it k anchors now = .ok now' ∧
        OutOfAttempts bounds manifest it first now' := by
  induction n generalizing anchors now with
  | zero => cases h
  | succ n ih =>
    rw [placeItem_succ] at h
    cases hd : throwDarts D it (radius manifest it.category)
        (footprintArea bounds (radius manifest it.category)) now.hash anchors maxAttempts
        now.rng with
    | none =>
      rw [hd] at h
      cases h
      exact ⟨rfl, 0, n.succ_pos, now, rfl,
        (throwDarts_eq_none_iff_outOfAttempts hinv hr hanch).mp hd⟩
    | some d =>
      rw [hd] at h
      obtain ⟨he, k, hk, now', hnow', hout⟩ :=
        ih (hinv.accept rfl hr hmax (throwDarts_free hd)) (hanch.accept it d) h
      refine ⟨he, k + 1, Nat.succ_lt_succ hk, now', ?_, hout⟩
      rw [placeItem_succ, hd]
      exact hnow'

theorem placeItem_inv {it : CategoryRecipe} (hr : 0 ≤ radius manifest it.category)
    (hmax : radius manifest it.category ≤ maxR) {n : ℕ} {anchors : List Placed}
    {st st' : Progress D} (hinv : PlaceInv manifest maxR st)
    (h : placeItem bounds manifest it n anchors st = .ok st') : PlaceInv manifest maxR st' :=
  placeInstances_inv rfl hr hmax hinv h

theorem placeItems_append {before after : List CategoryRecipe} {st : Progress D} :
    placeItems bounds manifest (before ++ after) st =
      (placeItems bounds manifest before st).bind (placeItems bounds manifest after) := by
  induction before generalizing st with
  | nil => rfl
  | cons it rest ih =>
    rw [List.cons_append]
    by_cases hfit : Fits bounds (radius manifest it.category)
    · rw [placeItems_cons_of_fits hfit, placeItems_cons_of_fits hfit]
      cases placeItem bounds manifest it it.count.toNat [] st with
      | error e => rfl
      | ok st₁ => exact ih
    · rw [placeItems_cons_of_not_fits hfit, placeItems_cons_of_not_fits hfit]
      rfl

/-- A stuck instance is stuck behind an item placed before. -/
theorem Stuck.cons {items : List CategoryRecipe} {st st₁ : Progress D} {it it₀ : CategoryRecipe}
    (hst₁ : placeItems bounds manifest [it₀] st = .ok st₁)
    (h : Stuck bounds manifest items st₁ it) : Stuck bounds manifest (it₀ :: items) st it := by
  obtain ⟨before, after, first, n, now, rfl, hfirst, hrest⟩ := h
  refine ⟨it₀ :: before, after, first, n, now, rfl, ?_, hrest⟩
  rw [← List.singleton_append, placeItems_append, hst₁]
  exact hfirst

/-- **Why the item loop fails**: some footprint does not fit, or some instance is stuck. -/
theorem placeItems_error {items : List CategoryRecipe} {st : Progress D} {e : PlaceError}
    (hradii : RadiiWithin manifest maxR items) (hinv : PlaceInv manifest maxR st)
    (h : placeItems bounds manifest items st = .error e) :
    (∃ it ∈ items, ¬Fits bounds (radius manifest it.category) ∧
      e = ⟨it.category, "bounds too small for footprint"⟩) ∨
    (∃ it ∈ items, Stuck bounds manifest items st it ∧
      e = ⟨it.category, "could not fit footprint after max attempts (area overcrowded)"⟩) := by
  induction items generalizing st with
  | nil => cases h
  | cons it rest ih =>
    obtain ⟨hit, hrest⟩ := List.forall_mem_cons.mp hradii
    by_cases hfit : Fits bounds (radius manifest it.category)
    · rw [placeItems_cons_of_fits hfit] at h
      cases hitem : placeItem bounds manifest it it.count.toNat [] st with
      | error e' =>
        rw [hitem] at h
        cases h
        obtain ⟨he, k, hk, now, hnow, hout⟩ :=
          placeItem_error hit.1 hit.2 hinv (Anchored.start st) hitem
        exact .inr ⟨it, List.mem_cons_self,
          ⟨[], rest, st, k, now, rfl, rfl, hfit, hk, hnow, hout⟩, he⟩
      | ok st₁ =>
        rw [hitem] at h
        have hst₁ : placeItems bounds manifest [it] st = .ok st₁ := by
          rw [placeItems_cons_of_fits hfit, hitem]
          rfl
        rcases ih hrest (placeItem_inv hit.1 hit.2 hinv hitem) h with
          ⟨it', hit', hbad⟩ | ⟨it', hit', hstuck, he⟩
        · exact .inl ⟨it', List.mem_cons_of_mem it hit', hbad⟩
        · exact .inr ⟨it', List.mem_cons_of_mem it hit', hstuck.cons hst₁, he⟩
    · rw [placeItems_cons_of_not_fits hfit] at h
      cases h
      exact .inl ⟨it, List.mem_cons_self, hfit, rfl⟩

end Failure

/-! ### The placement -/

section Exact

variable {D : Draws} {bounds : Bounds} {manifest : Manifest} {recipe : Recipe} {seed : ℤ}

/-- Where the item loop starts. -/
def placeStart (D : Draws) (seed : ℤ) (maxR : ℚ) : Progress D :=
  ⟨D.newPCG (UInt64.ofInt seed) 0x9e3779b97f4a7c15, newSpatialHash maxR, []⟩

theorem largestRadius_error {items : List CategoryRecipe} {r₀ : ℚ} {e : PlaceError}
    (h : largestRadius manifest r₀ items = .error e) :
    ∃ it ∈ items, manifest.get? it.category = none ∧
      e = ⟨it.category, "category not in manifest"⟩ := by
  induction items generalizing r₀ with
  | nil => cases h
  | cons it rest ih =>
    rw [largestRadius] at h
    cases hk : manifest.get? it.category with
    | none =>
      rw [hk] at h
      cases h
      exact ⟨it, List.mem_cons_self, hk, rfl⟩
    | some me =>
      rw [hk] at h
      obtain ⟨it', hit', hbad⟩ := ih h
      exact ⟨it', List.mem_cons_of_mem it hit', hbad⟩

/-- The item loop runs under its invariant. -/
theorem radiiWithin_of_largestRadius (hradii : NonnegRadii manifest) {items : List CategoryRecipe}
    {maxR : ℚ} (hmax : largestRadius manifest 0 items = .ok maxR) :
    RadiiWithin manifest maxR items :=
  fun it hit => ⟨hradii.radius_nonneg _, ((largestRadius_spec hmax).2 it hit).2⟩

/-- The output of a placement: the categories in placement order, each as often as its count;
every footprint in the bounds; and what each entry takes from its manifest entry and its item. -/
structure ExactOutput (recipe : Recipe) (bounds : Bounds) (manifest : Manifest)
    (entries : List AssetEntry) : Prop where
  order : ∃ items : List CategoryRecipe, items.Perm recipe.items.elems ∧
    items.Pairwise (Before manifest) ∧
    entries.map (·.category) = items.flatMap fun it => List.replicate it.count.toNat it.category
  counts : ∀ it ∈ recipe.items.elems,
    ((entries.map (·.category)).count it.category : ℤ) = it.count
  inBounds : ∀ e ∈ entries, InBounds bounds (footprint manifest e)
  groundSnap : ∀ e ∈ entries, ∃ me, manifest.get? e.category = some me ∧
    e.groundSnap = me.groundSnap
  tags : ∀ e ∈ entries, ∃ it ∈ recipe.items.elems, it.category = e.category ∧
    e.tags = .make it.tags.elems
  yaw : ∀ e ∈ entries, 0 ≤ e.transform.yaw ∧ e.transform.yaw < 360
  scale : ∀ e ∈ entries, 85 / 100 ≤ e.transform.scale ∧ e.transform.scale < 125 / 100

/-- Why a placement fails. -/
inductive FailureCause (D : Draws) (recipe : Recipe) (seed : ℤ) (bounds : Bounds)
    (manifest : Manifest) : PlaceError → Prop
  /-- A category is missing from the manifest. -/
  | unknown {it : CategoryRecipe} (hit : it ∈ recipe.items.elems)
      (h : manifest.get? it.category = none) :
      FailureCause D recipe seed bounds manifest ⟨it.category, "category not in manifest"⟩
  /-- A footprint does not fit the bounds. -/
  | tooLarge {it : CategoryRecipe} (hit : it ∈ recipe.items.elems)
      (h : ¬Fits bounds (radius manifest it.category)) :
      FailureCause D recipe seed bounds manifest ⟨it.category, "bounds too small for footprint"⟩
  /-- All of an instance's attempts overlapped. -/
  | exhausted {it : CategoryRecipe} {maxR : ℚ} (hit : it ∈ recipe.items.elems)
      (hmax : largestRadius manifest 0 (placementOrder manifest recipe.items.elems) = .ok maxR)
      (h : Stuck bounds manifest (placementOrder manifest recipe.items.elems)
        (placeStart D seed maxR) it) :
      FailureCause D recipe seed bounds manifest
        ⟨it.category, "could not fit footprint after max attempts (area overcrowded)"⟩

theorem exactOutput_of_place (hdistinct : (recipe.items.elems.map (·.category)).Nodup)
    (hcounts : ∀ it ∈ recipe.items.elems, 0 ≤ it.count) {entries : List AssetEntry}
    (h : place D recipe seed bounds manifest = .ok entries) :
    ExactOutput recipe bounds manifest entries where
  order := ⟨placementOrder manifest recipe.items.elems, List.perm_insertionSort _ _,
    placementOrder_sorted hdistinct, place_categories h⟩
  counts it hit := by
    rw [(place_categories_perm h).count_eq, count_itemCategories_of_mem hdistinct hit,
      Int.toNat_of_nonneg (hcounts it hit)]
  inBounds e he := (place_fromItem h e he).inBounds
  groundSnap e he := by
    obtain ⟨me, hme⟩ := Option.isSome_iff_exists.mp (place_known h e he)
    refine ⟨me, hme, ?_⟩
    rw [(place_fromItem h e he).groundSnap, GoMap.getD, hme, Option.getD_some]
  tags e he := (place_fromItem h e he).tags
  yaw e he := (place_fromItem h e he).yaw
  scale e he := (place_fromItem h e he).scale

theorem failureCause_of_place (hradii : NonnegRadii manifest) {e : PlaceError}
    (h : place D recipe seed bounds manifest = .error e) :
    FailureCause D recipe seed bounds manifest e := by
  simp only [place] at h
  cases hmax : largestRadius manifest 0 (placementOrder manifest recipe.items.elems) with
  | error e' =>
    rw [hmax] at h
    cases h
    obtain ⟨it, hit, hnone, rfl⟩ := largestRadius_error hmax
    exact .unknown (mem_placementOrder.mp hit) hnone
  | ok maxR =>
    rw [hmax] at h
    simp only at h
    split at h
    · rename_i e' hitems
      cases h
      rcases placeItems_error (radiiWithin_of_largestRadius hradii hmax)
        (PlaceInv.start manifest maxR _) hitems with
        ⟨it, hit, hbad, rfl⟩ | ⟨it, hit, hstuck, rfl⟩
      · exact .tooLarge (mem_placementOrder.mp hit) hbad
      · exact .exhausted (mem_placementOrder.mp hit) hmax hstuck
    · cases h

end Exact

end AetherForge
