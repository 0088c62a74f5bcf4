import Mathlib.Data.Prod.Lex
import Mathlib.Data.String.Basic
import AetherForge.Library.KeySort
import AetherForge.Backend.Pipeline

/-!
# The placement order

The comparison `less` compares a two-part key: the footprint radius, larger first, then the
name.  In a recipe with distinct categories no two items share a key, so the sorted items depend
on the recipe as a set only.

* `placementOrder_sorted` — the items in placement order are strictly sorted (`Before`);
* `placementOrder_eq_of_perm`, `placementOrder_filter` — the order of the recipe's items does not
  matter, and dropping some items leaves the others in their places;
* `place_clampCounts_perm` — two recipes with the same items give the same plan and the same
  placement, or the same error.
-/

namespace AetherForge

open Go KeySort

section Order

variable {manifest : Manifest} {items items' : List CategoryRecipe}

/-- The key that `less` compares: the radius in descending order, then the category. -/
def orderKey (manifest : Manifest) (it : CategoryRecipe) : Lex (ℚᵒᵈ × String) :=
  toLex (OrderDual.toDual (radius manifest it.category), it.category)

/-- Larger footprints first, then by name. -/
def Before (manifest : Manifest) (a b : CategoryRecipe) : Prop :=
  radius manifest b.category < radius manifest a.category ∨
    radius manifest a.category = radius manifest b.category ∧ a.category < b.category

theorem less_iff {a b : CategoryRecipe} : less manifest a b = true ↔ Before manifest a b := by
  simp only [less, Before]
  by_cases hr : radius manifest a.category = radius manifest b.category
  · rw [if_neg (not_not.mpr hr), hr]
    simp only [decide_eq_true_eq, lt_irrefl, false_or, true_and]
  · rw [if_pos hr]
    simp only [decide_eq_true_eq, hr, false_and, or_false, gt_iff_lt]

theorem orderKey_lt_iff {a b : CategoryRecipe} :
    orderKey manifest a < orderKey manifest b ↔ Before manifest a b := by
  rw [orderKey, orderKey, Prod.Lex.toLex_lt_toLex]
  exact Iff.rfl

/-- Not coming after is a comparison of keys. -/
theorem not_less_compares (manifest : Manifest) :
    Compares (fun a b => less manifest b a = false) (orderKey manifest) := by
  intro a b
  show less manifest b a = false ↔ _
  rw [← Bool.not_eq_true, less_iff, ← orderKey_lt_iff, not_lt]

/-- Distinct categories have distinct keys. -/
theorem nodup_orderKey (hnd : (items.map (·.category)).Nodup) :
    (items.map (orderKey manifest)).Nodup := by
  have hcat : (items.map (orderKey manifest)).map (fun k => (ofLex k).2) =
      items.map (·.category) := by
    rw [List.map_map]
    rfl
  refine List.Nodup.of_map (fun k => (ofLex k).2) ?_
  rw [hcat]
  exact hnd

/-- **Placement order is strict**: larger footprints first, equal ones by name. -/
theorem placementOrder_sorted (hnd : (items.map (·.category)).Nodup) :
    (placementOrder manifest items).Pairwise (Before manifest) :=
  (insertionSort_pairwise_lt (not_less_compares manifest) (nodup_orderKey hnd)).imp
    fun h => orderKey_lt_iff.mp h

theorem placementOrder_eq_of_perm (hperm : items.Perm items')
    (hnd : (items.map (·.category)).Nodup) :
    placementOrder manifest items = placementOrder manifest items' :=
  insertionSort_eq_of_perm (not_less_compares manifest) hperm (nodup_orderKey hnd)

theorem placementOrder_filter (p : CategoryRecipe → Bool)
    (hnd : (items.map (·.category)).Nodup) :
    placementOrder manifest (items.filter p) = (placementOrder manifest items).filter p :=
  insertionSort_filter (not_less_compares manifest) p (nodup_orderKey hnd)

end Order

/-! ### Listing the items in another order -/

/-- Placement sees the items through their placement order only. -/
theorem place_eq_of_order {D : Draws} {manifest : Manifest} {r r' : Recipe} {seed : ℤ}
    {bounds : Bounds}
    (h : placementOrder manifest r.items.elems = placementOrder manifest r'.items.elems) :
    place D r seed bounds manifest = place D r' seed bounds manifest := by
  simp only [place, h]

theorem totalCount_perm {items items' : List CategoryRecipe} (h : items.Perm items') :
    totalCount items = totalCount items' :=
  List.Perm.sum_eq (h.map CategoryRecipe.count)

/-- The caps treat every item alike, given the capped total. -/
theorem clampCounts_perm {r r' : Recipe} (h : r.items.elems.Perm r'.items.elems) :
    (clampCounts r).items.elems.Perm (clampCounts r').items.elems := by
  have hcapped : (r.items.map capItem).elems.Perm (r'.items.map capItem).elems := h.map capItem
  simp only [clampCounts, totalCount_perm hcapped]
  split
  · exact hcapped
  · exact hcapped.map _

/-- The plan's map is filled once for each category, so the order does not matter. -/
theorem planCategories_eq_of_perm {items items' : List CategoryRecipe} (h : items.Perm items')
    (hnd : (items.map (·.category)).Nodup) : planCategories items = planCategories items' := by
  refine h.foldl_eq' (fun a ha b hb m => ?_) _
  by_cases heq : a.category = b.category
  · rw [List.inj_on_of_nodup_map hnd ha hb heq]
  · simp only [GoMap.set, GoMap.make]
    congr 1
    exact Finmap.insert_insert_of_ne _ heq

/-- **The stream does not depend on the order of the items.**  For a recipe that some manifest
accepts and any rearrangement of it, the clamped recipes are placed alike under every manifest
(the same entries, or the same error) and announced alike. -/
theorem place_clampCounts_perm (D : Draws) (seed : ℤ) (bounds : Bounds) (manifest man : Manifest)
    (r r' : Recipe) (hvalid : validateRecipe (some r) man = none)
    (hperm : r.items.elems.Perm r'.items.elems) :
    place D (clampCounts r) seed bounds manifest = place D (clampCounts r') seed bounds manifest ∧
      planCategories (clampCounts r).items.elems = planCategories (clampCounts r').items.elems ∧
      totalCount (clampCounts r).items.elems = totalCount (clampCounts r').items.elems := by
  have hdistinct : ((clampCounts r).items.elems.map (·.category)).Nodup := by
    rw [clampCounts_categories]
    exact ((validateRecipe_eq_none_iff r man).mp hvalid).distinct
  have hclamped := clampCounts_perm hperm
  exact ⟨place_eq_of_order (placementOrder_eq_of_perm hclamped hdistinct),
    planCategories_eq_of_perm hclamped hdistinct, totalCount_perm hclamped⟩

/-- The meadow's recipe, listed the other way round. -/
def meadowReversed : Recipe := ⟨.make [⟨"dog", 1, 0, .nil⟩, ⟨"shrub", 2, 0, .nil⟩]⟩

theorem place_clampCounts_perm_meadow :
    place sawtoothDraws (clampCounts meadowRecipe) 7 meadowBounds meadowManifest =
        place sawtoothDraws (clampCounts meadowReversed) 7 meadowBounds meadowManifest ∧
      planCategories (clampCounts meadowRecipe).items.elems =
        planCategories (clampCounts meadowReversed).items.elems ∧
      totalCount (clampCounts meadowRecipe).items.elems =
        totalCount (clampCounts meadowReversed).items.elems :=
  place_clampCounts_perm sawtoothDraws 7 meadowBounds meadowManifest meadowManifest meadowRecipe
    meadowReversed (by decide +kernel) (List.Perm.swap _ _ _)

end AetherForge
