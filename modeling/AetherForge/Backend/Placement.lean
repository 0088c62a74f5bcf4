import Mathlib.Data.List.Sort
import Mathlib.Tactic.NormNum
import Mathlib.Tactic.Positivity
import AetherForge.Backend.Protocol
import AetherForge.Backend.SpatialHash

/-!
# The placement engine

`Place` of `placement.go`, over an arbitrary stream of random draws (`Draws`): the three
nested loops over items, instances and darts, with the cluster and the uniform branch.

`PlaceInv` is the invariant of all three loops: the hash represents the footprints of the
entries emitted so far, and these are pairwise disjoint.  An accepted dart keeps it
(`PlaceInv.accept`), hence so do an item's instances and the items (`placeInstances_inv`,
`placeItems_inv`).  The categories of the entries are exact: every item contributes its count,
in placement order (`place_categories`).
-/

namespace AetherForge

open Go GridCells

/-! ### Random draws -/

/-- A random source and the trigonometric functions applied to its draws.  `Float64` lies in
`[0, 1)` and `IntN(n)` in `[0, n)`; nothing is assumed of `cos` and `sin`. -/
structure Draws where
  State : Type
  newPCG : UInt64 → UInt64 → State
  float64 : State → {u : ℚ // 0 ≤ u ∧ u < 1} × State
  intN : State → (n : ℕ) → 0 < n → Fin n × State
  cos : ℚ → ℚ
  sin : ℚ → ℚ

/-- `math.Pi` as a `float64`. -/
def mathPi : ℚ := 884279719003555 / 281474976710656

/-! ### Constants, errors and order -/

def maxAttempts : ℕ := 512
def scaleMin : ℚ := 85 / 100
def scaleMax : ℚ := 125 / 100

/-- `placement.Error`. -/
structure PlaceError where
  category : String
  reason : String
  deriving DecidableEq

def PlaceError.text (e : PlaceError) : String :=
  "placement: " ++ e.reason ++ " (category " ++ quote e.category ++ ")"

/-- `manifest[k].FootprintRadius`, the zero value for an absent key. -/
def radius (manifest : Manifest) (k : String) : ℚ := (manifest.getD k default).footprintRadius

/-- The comparison passed to `sort.SliceStable`: larger footprints first, then by name. -/
def less (manifest : Manifest) (a b : CategoryRecipe) : Bool :=
  let ri := radius manifest a.category
  let rj := radius manifest b.category
  if ri ≠ rj then ri > rj else a.category < b.category

/-- The items in placement order: a stable sort by `less`. -/
def placementOrder (manifest : Manifest) (items : List CategoryRecipe) : List CategoryRecipe :=
  items.insertionSort fun a b => less manifest b a = false

/-- The first loop over the items: every category must be known; the largest radius. -/
def largestRadius (manifest : Manifest) : ℚ → List CategoryRecipe → Except PlaceError ℚ
  | maxR, [] => .ok maxR
  | maxR, it :: rest =>
    match manifest.get? it.category with
    | none => .error ⟨it.category, "category not in manifest"⟩
    | some me =>
      largestRadius manifest (if me.footprintRadius > maxR then me.footprintRadius else maxR) rest

/-! ### One dart -/

/-- The centres that keep a footprint inside the bounds. -/
structure Area where
  loX : ℚ
  hiX : ℚ
  loY : ℚ
  hiY : ℚ

def footprintArea (b : Bounds) (r : ℚ) : Area :=
  ⟨b.min.x + r, b.max.x - r, b.min.y + r, b.max.y - r⟩

def clamp (v lo hi : ℚ) : ℚ := if v < lo then lo else if v > hi then hi else v

section Place

variable (D : Draws)

/-- A point in an annulus around a random earlier member of the cluster, clamped. -/
def clusterDart (r : ℚ) (area : Area) (anchors : List Placed) (ha : 0 < anchors.length)
    (s : D.State) : (ℚ × ℚ) × D.State :=
  let i := D.intN s anchors.length ha
  let a := anchors.get i.1
  let u := D.float64 i.2
  let ang := u.1.val * 2 * mathPi
  let v := D.float64 u.2
  let dist := r * (205 / 100 + 3 * v.1.val)
  ((clamp (a.x + dist * D.cos ang) area.loX area.hiX,
    clamp (a.y + dist * D.sin ang) area.loY area.hiY), v.2)

/-- A uniform point of the area. -/
def uniformDart (area : Area) (s : D.State) : (ℚ × ℚ) × D.State :=
  let u := D.float64 s
  let v := D.float64 u.2
  ((area.loX + u.1.val * (area.hiX - area.loX), area.loY + v.1.val * (area.hiY - area.loY)), v.2)

/-- One candidate position.  The draw that decides for the cluster branch is made only when
the item clusters and has an anchor. -/
def dart (it : CategoryRecipe) (r : ℚ) (area : Area) (anchors : List Placed) (s : D.State) :
    (ℚ × ℚ) × D.State :=
  if h : 0 < it.clustering ∧ 0 < anchors.length then
    let u := D.float64 s
    if u.1.val < it.clustering then clusterDart D r area anchors h.2 u.2 else uniformDart D area u.2
  else uniformDart D area s

/-- The attempt loop: the first candidate that overlaps nothing placed. -/
def throwDarts (it : CategoryRecipe) (r : ℚ) (area : Area) (hash : SpatialHash)
    (anchors : List Placed) : ℕ → D.State → Option ((ℚ × ℚ) × D.State)
  | 0, _ => none
  | attempts + 1, s =>
    let d := dart D it r area anchors s
    if hash.overlaps d.1.1 d.1.2 r then throwDarts it r area hash anchors attempts d.2 else some d

/-! ### The loops -/

/-- What the loops carry along: the random stream, the hash, the entries so far. -/
structure Progress where
  rng : D.State
  hash : SpatialHash
  entries : List AssetEntry

variable {D}

/-- Insert an accepted dart and emit its entry, drawing yaw and scale. -/
def Progress.accept (st : Progress D) (it : CategoryRecipe) (me : ManifestEntry)
    (d : (ℚ × ℚ) × D.State) : Progress D :=
  let yaw := D.float64 d.2
  let scale := D.float64 yaw.2
  { rng := scale.2
    hash := st.hash.insert ⟨d.1.1, d.1.2, me.footprintRadius⟩
    entries := st.entries ++
      [{ category := it.category
         transform :=
          { location := ⟨d.1.1, d.1.2⟩
            yaw := yaw.1.val * 360
            scale := scaleMin + scale.1.val * (scaleMax - scaleMin) }
         groundSnap := me.groundSnap
         tags := .make it.tags.elems }] }

/-- The instance loop of one item, with the anchors placed so far. -/
def placeInstances (it : CategoryRecipe) (me : ManifestEntry) (area : Area) :
    ℕ → List Placed → Progress D → Except PlaceError (Progress D)
  | 0, _, st => .ok st
  | n + 1, anchors, st =>
    match throwDarts D it me.footprintRadius area st.hash anchors maxAttempts st.rng with
    | none => .error ⟨it.category, "could not fit footprint after max attempts (area overcrowded)"⟩
    | some d =>
      placeInstances it me area n (anchors ++ [⟨d.1.1, d.1.2, me.footprintRadius⟩])
        (st.accept it me d)

/-- The item loop.  A negative count places nothing. -/
def placeItems (bounds : Bounds) (manifest : Manifest) :
    List CategoryRecipe → Progress D → Except PlaceError (Progress D)
  | [], st => .ok st
  | it :: rest, st =>
    let me := manifest.getD it.category default
    let area := footprintArea bounds me.footprintRadius
    if area.loX > area.hiX ∨ area.loY > area.hiY then
      .error ⟨it.category, "bounds too small for footprint"⟩
    else
      match placeInstances it me area it.count.toNat [] st with
      | .error e => .error e
      | .ok st => placeItems bounds manifest rest st

variable (D)

/-- `Place`.  The sum of the counts only sizes the result's backing array; callers pass validated
recipes, so the sum is never negative (where `make` would panic). -/
def place (recipe : Recipe) (seed : ℤ) (bounds : Bounds) (manifest : Manifest) :
    Except PlaceError (List AssetEntry) :=
  let rng := D.newPCG (UInt64.ofInt seed) 0x9e3779b97f4a7c15
  let items := placementOrder manifest recipe.items.elems
  match largestRadius manifest 0 items with
  | .error e => .error e
  | .ok maxR =>
    match placeItems bounds manifest items ⟨rng, newSpatialHash maxR, []⟩ with
    | .error e => .error e
    | .ok st => .ok st.entries

end Place

/-! ### The loop invariant -/

/-- The disc an entry occupies, with the radius of its category. -/
def footprint (manifest : Manifest) (e : AssetEntry) : Placed :=
  ⟨e.transform.location.x, e.transform.location.y, radius manifest e.category⟩

section Invariant

variable {D : Draws} {manifest : Manifest} {maxR : ℚ}

/-- The hash represents the footprints emitted so far, which are pairwise disjoint. -/
structure PlaceInv (manifest : Manifest) (maxR : ℚ) (st : Progress D) : Prop where
  represents : st.hash.Represents (st.entries.map (footprint manifest))
  maxR_eq : st.hash.maxR = maxR
  disjoint : st.entries.Pairwise fun a b =>
    ¬(footprint manifest a).Overlaps (footprint manifest b)

theorem PlaceInv.start (manifest : Manifest) (maxR : ℚ) (rng : D.State) :
    PlaceInv manifest maxR (⟨rng, newSpatialHash maxR, []⟩ : Progress D) :=
  ⟨SpatialHash.represents_new maxR, rfl, .nil⟩

/-- **Step lemma.**  Accepting a dart that overlaps nothing keeps the invariant. -/
theorem PlaceInv.accept {st : Progress D} (h : PlaceInv manifest maxR st) {it : CategoryRecipe}
    {me : ManifestEntry} (hme : me.footprintRadius = radius manifest it.category)
    (hr : 0 ≤ me.footprintRadius) (hmax : me.footprintRadius ≤ maxR) {d : (ℚ × ℚ) × D.State}
    (hfree : st.hash.overlaps d.1.1 d.1.2 me.footprintRadius = false) :
    PlaceInv manifest maxR (st.accept it me d) := by
  refine ⟨?_, h.maxR_eq, ?_⟩
  · have hins := h.represents.insert (p := ⟨d.1.1, d.1.2, me.footprintRadius⟩)
      ⟨hr, h.maxR_eq ▸ hmax⟩
    simpa only [Progress.accept, List.map_append, List.map_cons, List.map_nil, footprint, hme]
      using hins
  · refine List.pairwise_append.mpr ⟨h.disjoint, List.pairwise_singleton _ _, ?_⟩
    intro a ha b hb hov
    rw [List.mem_singleton.mp hb] at hov
    -- the new footprint would overlap one the hash holds
    have hhit : st.hash.overlaps d.1.1 d.1.2 me.footprintRadius = true := by
      rw [SpatialHash.overlaps_iff h.represents hr, hme]
      exact ⟨footprint manifest a, List.mem_map_of_mem ha, hov.symm⟩
    rw [hhit] at hfree
    cases hfree

/-- The attempt loop only returns darts that overlap nothing. -/
theorem throwDarts_free {it : CategoryRecipe} {r : ℚ} {area : Area} {hash : SpatialHash}
    {anchors : List Placed} {attempts : ℕ} {s : D.State} {d : (ℚ × ℚ) × D.State}
    (h : throwDarts D it r area hash anchors attempts s = some d) :
    hash.overlaps d.1.1 d.1.2 r = false := by
  induction attempts generalizing s with
  | zero => cases h
  | succ n ih =>
    rw [throwDarts] at h
    split at h
    · exact ih h
    · rename_i hfree
      cases h
      simpa using hfree

theorem placeInstances_inv {it : CategoryRecipe} {me : ManifestEntry} {area : Area}
    (hme : me.footprintRadius = radius manifest it.category)
    (hr : 0 ≤ me.footprintRadius) (hmax : me.footprintRadius ≤ maxR)
    {n : ℕ} {anchors : List Placed} {st st' : Progress D} (hinv : PlaceInv manifest maxR st)
    (h : placeInstances it me area n anchors st = .ok st') : PlaceInv manifest maxR st' := by
  induction n generalizing anchors st with
  | zero =>
    cases h
    exact hinv
  | succ n ih =>
    rw [placeInstances] at h
    cases hd : throwDarts D it me.footprintRadius area st.hash anchors maxAttempts st.rng with
    | none => rw [hd] at h; cases h
    | some d =>
      rw [hd] at h
      exact ih (hinv.accept hme hr hmax (throwDarts_free hd)) h

/-- The items' radii are in the range the hash was built for. -/
def RadiiWithin (manifest : Manifest) (maxR : ℚ) (items : List CategoryRecipe) : Prop :=
  ∀ it ∈ items, 0 ≤ radius manifest it.category ∧ radius manifest it.category ≤ maxR

theorem placeItems_inv {bounds : Bounds} {items : List CategoryRecipe} {st st' : Progress D}
    (hradii : RadiiWithin manifest maxR items) (hinv : PlaceInv manifest maxR st)
    (h : placeItems bounds manifest items st = .ok st') : PlaceInv manifest maxR st' := by
  induction items generalizing st with
  | nil =>
    cases h
    exact hinv
  | cons it rest ih =>
    obtain ⟨hit, hrest⟩ := List.forall_mem_cons.mp hradii
    simp only [placeItems] at h
    split at h
    · cases h
    · split at h
      · cases h
      · rename_i st₁ hinst
        exact ih hrest (placeInstances_inv rfl hit.1 hit.2 hinv hinst) h

/-- The first loop bounds every radius by its result, and finds every category. -/
theorem largestRadius_spec {items : List CategoryRecipe} {r₀ r : ℚ}
    (h : largestRadius manifest r₀ items = .ok r) :
    r₀ ≤ r ∧ ∀ it ∈ items, (manifest.get? it.category).isSome ∧
      radius manifest it.category ≤ r := by
  induction items generalizing r₀ with
  | nil =>
    cases h
    exact ⟨le_rfl, by simp⟩
  | cons it rest ih =>
    rw [largestRadius] at h
    cases hk : manifest.get? it.category with
    | none => rw [hk] at h; cases h
    | some me =>
      rw [hk] at h
      obtain ⟨hle, hrest⟩ := ih h
      have hr : radius manifest it.category = me.footprintRadius := by
        rw [radius, GoMap.getD, hk, Option.getD_some]
      -- the running maximum is at least its old value and at least this radius
      have hmax : r₀ ≤ r ∧ me.footprintRadius ≤ r := by
        split at hle
        · rename_i hgt
          exact ⟨(le_of_lt hgt).trans hle, hle⟩
        · rename_i hgt
          exact ⟨hle, (not_lt.mp hgt).trans hle⟩
      refine ⟨hmax.1, List.forall_mem_cons.mpr ⟨⟨by rw [hk]; rfl, by rw [hr]; exact hmax.2⟩, hrest⟩⟩

/-! ### What a successful placement went through -/

/-- A successful placement: the first loop's radius, and the run of the item loop. -/
theorem place_ok {recipe : Recipe} {seed : ℤ} {bounds : Bounds} {entries : List AssetEntry}
    (h : place D recipe seed bounds manifest = .ok entries) :
    ∃ maxR st, largestRadius manifest 0 (placementOrder manifest recipe.items.elems) = .ok maxR ∧
      placeItems bounds manifest (placementOrder manifest recipe.items.elems)
        ⟨D.newPCG (UInt64.ofInt seed) 0x9e3779b97f4a7c15, newSpatialHash maxR, []⟩ = .ok st ∧
      st.entries = entries := by
  simp only [place] at h
  split at h
  · cases h
  · rename_i maxR hmax
    split at h
    · cases h
    · rename_i st hst
      cases h
      exact ⟨maxR, st, hmax, hst, rfl⟩

theorem mem_placementOrder {items : List CategoryRecipe} {it : CategoryRecipe} :
    it ∈ placementOrder manifest items ↔ it ∈ items := by
  exact (List.perm_insertionSort _ items).mem_iff

/-- The manifest's radii are non-negative. -/
def NonnegRadii (manifest : Manifest) : Prop :=
  ∀ k e, manifest.get? k = some e → 0 ≤ e.footprintRadius

theorem NonnegRadii.radius_nonneg (h : NonnegRadii manifest) (k : String) :
    0 ≤ radius manifest k := by
  rw [radius, GoMap.getD]
  cases hk : manifest.get? k with
  | none => exact le_refl _
  | some e => exact h k e hk

/-- The invariant holds of every successful placement. -/
theorem place_inv {recipe : Recipe} {seed : ℤ} {bounds : Bounds} {entries : List AssetEntry}
    (hradii : NonnegRadii manifest) (h : place D recipe seed bounds manifest = .ok entries) :
    ∃ maxR, ∃ st : Progress D, PlaceInv manifest maxR st ∧ st.entries = entries := by
  obtain ⟨maxR, st, hmax, hst, hentries⟩ := place_ok h
  obtain ⟨_, hall⟩ := largestRadius_spec hmax
  have hwithin : RadiiWithin manifest maxR (placementOrder manifest recipe.items.elems) :=
    fun it hit => ⟨hradii.radius_nonneg _, (hall it hit).2⟩
  exact ⟨maxR, st, placeItems_inv hwithin (PlaceInv.start manifest maxR _) hst, hentries⟩

/-- **No overlap.**  Any two distinct entries of a successful placement are at least the sum of
their categories' radii apart. -/
theorem place_no_overlap (D : Draws) (recipe : Recipe) (seed : ℤ) (bounds : Bounds)
    (manifest : Manifest) (entries : List AssetEntry) (hradii : NonnegRadii manifest)
    (h : place D recipe seed bounds manifest = .ok entries)
    (i j : Fin entries.length) (hij : i ≠ j) :
    (radius manifest (entries.get i).category + radius manifest (entries.get j).category) ^ 2 ≤
      ((entries.get i).transform.location.x - (entries.get j).transform.location.x) ^ 2 +
        ((entries.get i).transform.location.y - (entries.get j).transform.location.y) ^ 2 := by
  obtain ⟨maxR, st, hinv, rfl⟩ := place_inv hradii h
  have hpair := List.pairwise_iff_get.mp hinv.disjoint
  rcases lt_or_gt_of_ne hij with hlt | hgt
  · exact not_lt.mp (hpair i j hlt)
  · exact not_lt.mp fun hov => hpair j i hgt (Disc.Overlaps.symm hov)

theorem NonnegRadii.empty : NonnegRadii (GoMap.make ∅) := by
  intro k e h
  rw [GoMap.get?_make_empty] at h
  cases h

theorem NonnegRadii.set (h : NonnegRadii manifest) (k : String) {e : ManifestEntry}
    (he : 0 ≤ e.footprintRadius) : NonnegRadii (manifest.set k e) := by
  intro k' e' hk'
  by_cases heq : k' = k
  · rw [heq, GoMap.get?_set_self] at hk'
    cases hk'
    exact he
  · rw [GoMap.get?_set_of_ne _ _ heq] at hk'
    exact h k' e' hk'

/-- A periodic stream: the draws cycle through the sevenths. -/
def sawtoothDraws : Draws where
  State := ℕ
  newPCG _ _ := 0
  float64 s := (⟨((s % 7 : ℕ) : ℚ) / 7, by
    constructor
    · positivity
    · rw [div_lt_one (by norm_num)]
      exact_mod_cast Nat.mod_lt s (by norm_num)⟩, s + 1)
  intN s n hn := (⟨s % n, Nat.mod_lt s hn⟩, s + 1)
  cos _ := 1
  sin _ := 0

def meadowManifest : Manifest :=
  ((GoMap.make ∅).set "shrub" ⟨1, true, true, "Shrub"⟩).set "dog" ⟨2, true, false, "Dog"⟩

def meadowRecipe : Recipe := ⟨.make [⟨"shrub", 2, 0, .nil⟩, ⟨"dog", 1, 0, .nil⟩]⟩

def meadowBounds : Bounds := ⟨⟨0, 0⟩, ⟨40, 40⟩⟩

theorem meadowManifest_nonneg : NonnegRadii meadowManifest :=
  (NonnegRadii.empty.set "shrub" (by decide)).set "dog" (by decide)

theorem place_no_overlap_meadow :
    ∃ entries, place sawtoothDraws meadowRecipe 7 meadowBounds meadowManifest = .ok entries ∧
      entries.length = 3 ∧ ∀ i j : Fin entries.length, i ≠ j →
        (radius meadowManifest (entries.get i).category +
            radius meadowManifest (entries.get j).category) ^ 2 ≤
          ((entries.get i).transform.location.x - (entries.get j).transform.location.x) ^ 2 +
            ((entries.get i).transform.location.y - (entries.get j).transform.location.y) ^ 2 := by
  have hlen : (place sawtoothDraws meadowRecipe 7 meadowBounds meadowManifest).toOption.map
      List.length = some 3 := by decide +kernel
  cases h : place sawtoothDraws meadowRecipe 7 meadowBounds meadowManifest with
  | error e => rw [h] at hlen; cases hlen
  | ok entries =>
    rw [h] at hlen
    exact ⟨entries, rfl, Option.some.inj hlen,
      place_no_overlap sawtoothDraws meadowRecipe 7 meadowBounds meadowManifest entries
        meadowManifest_nonneg h⟩

/-! ### Exact categories -/

/-- The categories an item loop emits: each category as often as its item's count. -/
def itemCategories (items : List CategoryRecipe) : List String :=
  items.flatMap fun it => List.replicate it.count.toNat it.category

theorem placeInstances_categories {it : CategoryRecipe} {me : ManifestEntry} {area : Area} {n : ℕ}
    {anchors : List Placed} {st st' : Progress D}
    (h : placeInstances it me area n anchors st = .ok st') :
    st'.entries.map (·.category) = st.entries.map (·.category) ++ List.replicate n it.category := by
  induction n generalizing anchors st with
  | zero =>
    cases h
    simp
  | succ n ih =>
    rw [placeInstances] at h
    cases hd : throwDarts D it me.footprintRadius area st.hash anchors maxAttempts st.rng with
    | none => rw [hd] at h; cases h
    | some d =>
      rw [hd] at h
      rw [ih h, List.replicate_succ]
      simp [Progress.accept]

theorem placeItems_categories {bounds : Bounds} {items : List CategoryRecipe}
    {st st' : Progress D} (h : placeItems bounds manifest items st = .ok st') :
    st'.entries.map (·.category) = st.entries.map (·.category) ++ itemCategories items := by
  induction items generalizing st with
  | nil =>
    cases h
    simp [itemCategories]
  | cons it rest ih =>
    simp only [placeItems] at h
    split at h
    · cases h
    · split at h
      · cases h
      · rename_i st₁ hinst
        rw [ih h, placeInstances_categories hinst, List.append_assoc]
        rfl

/-- **The category sequence is exact**: in placement order, every item's category as often as
its count. -/
theorem place_categories {recipe : Recipe} {seed : ℤ} {bounds : Bounds}
    {entries : List AssetEntry} (h : place D recipe seed bounds manifest = .ok entries) :
    entries.map (·.category) =
      itemCategories (placementOrder manifest recipe.items.elems) := by
  obtain ⟨maxR, st, _, hst, rfl⟩ := place_ok h
  simpa using placeItems_categories hst

theorem itemCategories_perm {items items' : List CategoryRecipe} (h : items.Perm items') :
    (itemCategories items).Perm (itemCategories items') :=
  h.flatMap_right _

theorem place_categories_perm {recipe : Recipe} {seed : ℤ} {bounds : Bounds}
    {entries : List AssetEntry} (h : place D recipe seed bounds manifest = .ok entries) :
    (entries.map (·.category)).Perm (itemCategories recipe.items.elems) := by
  rw [place_categories h]
  exact itemCategories_perm (List.perm_insertionSort _ _)

/-- Every emitted category is one of the manifest's. -/
theorem place_known {recipe : Recipe} {seed : ℤ} {bounds : Bounds} {entries : List AssetEntry}
    (h : place D recipe seed bounds manifest = .ok entries) :
    ∀ e ∈ entries, (manifest.get? e.category).isSome := by
  intro e he
  have hmem : e.category ∈ itemCategories recipe.items.elems :=
    (place_categories_perm h).mem_iff.mp (List.mem_map_of_mem he)
  obtain ⟨it, hit, hrep⟩ := List.mem_flatMap.mp hmem
  obtain ⟨maxR, _, hmax, _⟩ := place_ok h
  rw [List.eq_of_mem_replicate hrep]
  exact ((largestRadius_spec hmax).2 it (mem_placementOrder.mpr hit)).1

/-- The number of entries is the total of the counts. -/
theorem place_length {recipe : Recipe} {seed : ℤ} {bounds : Bounds} {entries : List AssetEntry}
    (h : place D recipe seed bounds manifest = .ok entries) :
    entries.length = (recipe.items.elems.map fun it => it.count.toNat).sum := by
  have hlen := (place_categories_perm h).length_eq
  rw [List.length_map] at hlen
  rw [hlen, itemCategories, List.length_flatMap]
  simp only [List.length_replicate]

/-- With distinct categories, a category occurs as often as its item's count says. -/
theorem count_itemCategories_of_mem {items : List CategoryRecipe}
    (hnd : (items.map (·.category)).Nodup) {it : CategoryRecipe} (hit : it ∈ items) :
    (itemCategories items).count it.category = it.count.toNat := by
  induction items with
  | nil => cases hit
  | cons it₀ rest ih =>
    rw [List.map_cons, List.nodup_cons] at hnd
    rw [itemCategories, List.flatMap_cons, List.count_append, List.count_replicate]
    rcases List.mem_cons.mp hit with rfl | hrest
    · have hzero : (itemCategories rest).count it.category = 0 := by
        refine List.count_eq_zero_of_not_mem fun hmem => hnd.1 ?_
        obtain ⟨it', hit', hrep⟩ := List.mem_flatMap.mp hmem
        rw [List.eq_of_mem_replicate hrep]
        exact List.mem_map_of_mem hit'
      simp only [beq_self_eq_true, if_true]
      exact (congrArg (it.count.toNat + ·) hzero).trans (Nat.add_zero _)
    · have hne : ¬ it₀.category = it.category := by
        intro heq
        exact hnd.1 (heq ▸ List.mem_map_of_mem hrest)
      simp only [beq_iff_eq, hne, if_false, Nat.zero_add]
      exact ih hnd.2 hrest

/-- A category of no item does not occur. -/
theorem count_itemCategories_of_not_mem {items : List CategoryRecipe} {k : String}
    (hk : k ∉ items.map (·.category)) : (itemCategories items).count k = 0 := by
  refine List.count_eq_zero_of_not_mem fun hmem => hk ?_
  obtain ⟨it, hit, hrep⟩ := List.mem_flatMap.mp hmem
  rw [List.eq_of_mem_replicate hrep]
  exact List.mem_map_of_mem hit

end Invariant

end AetherForge
