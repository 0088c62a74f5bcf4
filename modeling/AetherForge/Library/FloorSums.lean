import Mathlib.Algebra.BigOperators.Group.List.Basic
import Mathlib.Algebra.Order.BigOperators.Group.List
import Mathlib.Algebra.Order.Ring.Int
import Mathlib.Tactic.LinearCombination
import Mathlib.Tactic.Ring
import Mathlib.Tactic.Linarith

/-!
# Sums of truncated proportional shares

Scaling a list of counts with sum `T` to a target `M` gives each count `a` the share
`a * M / T`.  The truncated shares fall short of `M` by exactly the sum of the remainders over
`T`; a share that is positive before truncation and lifted back to `1` adds one unit.  The
balance of the two decides whether the lifted total stays within `M`.
-/

namespace FloorSums

/-- The truncated shares times the divisor, plus the remainders, give back the scaled sum. -/
theorem sum_ediv_mul_add_sum_emod (l : List ℤ) (M T : ℤ) :
    (l.map fun a => a * M / T).sum * T + (l.map fun a => a * M % T).sum = l.sum * M := by
  induction l with
  | nil => simp
  | cons a l ih =>
    have ha : a * M / T * T + a * M % T = a * M := Int.ediv_mul_add_emod (a * M) T
    simp only [List.map_cons, List.sum_cons]
    linear_combination ih + ha

/-- The truncated share, lifted to `1` when a positive count would get nothing. -/
def liftedShare (M T a : ℤ) : ℤ := if 0 < a ∧ a * M / T < 1 then 1 else a * M / T

/-- The counts that are lifted. -/
def lifted (M T : ℤ) (l : List ℤ) : List ℤ := l.filter fun a => 0 < a ∧ a * M < T

theorem ediv_lt_one_iff {M T a : ℤ} (hT : 0 < T) : a * M / T < 1 ↔ a * M < T := by
  rw [Int.ediv_lt_iff_lt_mul hT, one_mul]

/-- A lifted share is no more than the count when the counts are scaled down. -/
theorem liftedShare_le {M T a : ℤ} (hM : 0 < M) (hMT : M ≤ T) (ha : 0 ≤ a) :
    liftedShare M T a ≤ a := by
  unfold liftedShare
  split
  · rename_i h
    exact h.1
  · have hT : 0 < T := lt_of_lt_of_le hM hMT
    exact Int.ediv_le_of_le_mul hT (mul_le_mul_of_nonneg_left hMT ha)

theorem liftedShare_nonneg {M T a : ℤ} (hM : 0 ≤ M) (hT : 0 ≤ T) (ha : 0 ≤ a) :
    0 ≤ liftedShare M T a := by
  unfold liftedShare
  split
  · decide
  · exact Int.ediv_nonneg (mul_nonneg ha hM) hT

/-- Scaling down leaves no count above `1` as it is. -/
theorem liftedShare_eq_self_iff {M T a : ℤ} (hM : 0 ≤ M) (hMT : M < T) (ha : 0 ≤ a) :
    liftedShare M T a = a ↔ a ≤ 1 := by
  have hT : 0 < T := lt_of_le_of_lt hM hMT
  unfold liftedShare
  constructor
  · intro h
    by_contra hgt
    rw [not_le] at hgt
    have hless : a * M / T < a :=
      (Int.ediv_lt_iff_lt_mul hT).mpr (mul_lt_mul_of_pos_left hMT (by omega))
    split at h <;> omega
  · intro hle
    obtain rfl | rfl : a = 0 ∨ a = 1 := by omega
    · simp
    · rw [if_pos ⟨one_pos, by rwa [ediv_lt_one_iff hT, one_mul]⟩]

/-- Lifting adds one unit for each lifted count. -/
theorem sum_liftedShare {M T : ℤ} (hM : 0 ≤ M) (hT : 0 < T) (l : List ℤ) :
    (l.map (liftedShare M T)).sum = (l.map fun a => a * M / T).sum + (lifted M T l).length := by
  induction l with
  | nil => simp [lifted]
  | cons a l ih =>
    simp only [List.map_cons, List.sum_cons, ih, lifted, List.filter_cons]
    by_cases h : 0 < a ∧ a * M < T
    · -- a lifted count has share `0` before the lift
      have hzero : a * M / T = 0 := Int.ediv_eq_zero_of_lt (mul_nonneg h.1.le hM) h.2
      have hlift : liftedShare M T a = 1 := by
        rw [liftedShare, if_pos ⟨h.1, by rw [hzero]; decide⟩]
      rw [hlift, hzero, decide_eq_true h, if_pos rfl, List.length_cons]
      push_cast
      ring
    · have hkeep : liftedShare M T a = a * M / T := by
        rw [liftedShare, if_neg]
        rwa [ediv_lt_one_iff hT]
      rw [hkeep, decide_eq_false h]
      simp only [Bool.false_eq_true, if_false]
      ring

/-- A lifted share is nothing only for a count of nothing. -/
theorem liftedShare_eq_zero_iff {M T a : ℤ} (ha : 0 ≤ a) : liftedShare M T a = 0 ↔ a = 0 := by
  constructor
  · intro h
    by_contra hne
    have hpos : 0 < a := lt_of_le_of_ne ha (Ne.symm hne)
    unfold liftedShare at h
    split at h
    · exact one_ne_zero h
    · rename_i hnot
      exact hnot ⟨hpos, by rw [h]; exact one_pos⟩
  · rintro rfl
    simp [liftedShare]

/-- Lifted shares keep the order of the counts. -/
theorem liftedShare_mono {M T a b : ℤ} (hM : 0 ≤ M) (hT : 0 < T) (hab : a ≤ b) :
    liftedShare M T a ≤ liftedShare M T b := by
  have hshare : a * M / T ≤ b * M / T :=
    Int.ediv_le_ediv hT (mul_le_mul_of_nonneg_right hab hM)
  unfold liftedShare
  split
  · rename_i hlift
    -- a lifted count is positive, so the larger one has at least `1` too
    split
    · exact le_rfl
    · rename_i hkeep
      exact not_lt.mp fun hlt => hkeep ⟨lt_of_lt_of_le hlift.1 hab, hlt⟩
  · split
    · rename_i hlift
      exact hshare.trans (le_of_lt hlift.2)
    · exact hshare

/-- Truncation takes less than one unit from each count. -/
theorem lt_sum_ediv {M : ℤ} {l : List ℤ} (hne : l ≠ []) (hT : 0 < l.sum) :
    M - l.length < (l.map fun a => a * M / l.sum).sum := by
  have hrem : (l.map fun a => a * M % l.sum).sum < (l.map fun _ => l.sum).sum :=
    List.sum_lt_sum_of_ne_nil hne _ _ fun a _ => Int.emod_lt_of_pos _ hT
  rw [List.map_const', List.sum_replicate, nsmul_eq_mul] at hrem
  have hbalance := sum_ediv_mul_add_sum_emod l M l.sum
  refine lt_of_mul_lt_mul_right ?_ hT.le
  linarith [mul_comm l.sum M, sub_mul M (l.length : ℤ) l.sum]

/-- **Scaling loses less than rounding**: the lifted total exceeds the target less one unit for
each count. -/
theorem lt_sum_liftedShare {M : ℤ} (hM : 0 ≤ M) {l : List ℤ} (hne : l ≠ []) (hT : 0 < l.sum) :
    M - l.length < (l.map (liftedShare M l.sum)).sum := by
  rw [sum_liftedShare hM hT]
  have hlt := lt_sum_ediv (M := M) hne hT
  omega

/-- **The lifted total stays within the target exactly when the lifts, in units of `1 / T`,
do not outweigh the truncation remainders.** -/
theorem sum_liftedShare_le_iff {M : ℤ} (hM : 0 ≤ M) {l : List ℤ} (hT : 0 < l.sum) :
    (l.map (liftedShare M l.sum)).sum ≤ M ↔
      (lifted M l.sum l).length * l.sum ≤ (l.map fun a => a * M % l.sum).sum := by
  have hbalance := sum_ediv_mul_add_sum_emod l M l.sum
  rw [sum_liftedShare hM hT, ← mul_le_mul_iff_left₀ hT]
  constructor <;> intro h <;> linarith [mul_comm l.sum M]

/-- The lifted total is at most one unit for each count, unless the counts are few enough that
some share is not lifted. -/
theorem sum_liftedShare_le {M cap : ℤ} (hM : 0 < M) {l : List ℤ}
    (hl : ∀ a ∈ l, 0 ≤ a ∧ a ≤ cap) (hT : M ≤ l.sum) :
    (l.map (liftedShare M l.sum)).sum ≤ max (cap * M) l.length := by
  rcases le_or_gt l.sum (cap * M) with hle | hgt
  · have hsum : (l.map (liftedShare M l.sum)).sum ≤ (l.map id).sum :=
      List.sum_le_sum fun a ha => liftedShare_le hM hT (hl a ha).1
    rw [List.map_id] at hsum
    exact le_max_of_le_left (hsum.trans hle)
  · have hone : ∀ a ∈ l, liftedShare M l.sum a ≤ 1 := by
      intro a ha
      have hlt : a * M / l.sum < 1 := by
        rw [ediv_lt_one_iff (lt_of_lt_of_le hM hT)]
        exact lt_of_le_of_lt (mul_le_mul_of_nonneg_right (hl a ha).2 hM.le) hgt
      unfold liftedShare
      split
      · exact le_rfl
      · exact hlt.le
    have hsum := List.sum_le_card_nsmul (l.map (liftedShare M l.sum)) 1 fun a ha => by
      obtain ⟨b, hb, rfl⟩ := List.mem_map.mp ha
      exact hone b hb
    rw [List.length_map, nsmul_one] at hsum
    exact le_max_of_le_right (by exact_mod_cast hsum)

end FloorSums
