import Mathlib.Data.List.Basic
import Mathlib.Order.Lattice

/-!
# Cutting a list into slices

`slices n off l` is what a loop that advances an offset by `n` cuts from `l`: the slices
`l[off : min (off + n) len]`.  For `0 < n` they lose and repeat nothing (`flatten_slices`), none
is empty or longer than `n` (`length_mem_slices`), and all but the last have exactly `n`
elements (`length_of_mem_dropLast_slices`).

A list whose elements carry numbers in ascending order is the blocks of the equally numbered
elements, one after the other (`eq_flatMap_filter`).
-/

namespace Slicing

variable {α : Type*}

/-- The slice `l[i:j]`. -/
def slice (l : List α) (i j : ℕ) : List α := (l.take j).drop i

/-- The slices from offset `off` on, each `n` long but for the last. -/
def slices (n : ℕ) (hn : 0 < n) (l : List α) (off : ℕ) : List (List α) :=
  if off < l.length then
    slice l off (min (off + n) l.length) :: slices n hn l (off + n)
  else []
termination_by l.length - off

variable {n : ℕ} {hn : 0 < n} {l : List α} {off : ℕ}

theorem slices_of_lt (h : off < l.length) :
    slices n hn l off = slice l off (min (off + n) l.length) :: slices n hn l (off + n) := by
  rw [slices, if_pos h]

theorem slices_of_ge (h : ¬off < l.length) : slices n hn l off = [] := by
  rw [slices, if_neg h]

theorem length_slice_min (h : off < l.length) :
    (slice l off (min (off + n) l.length)).length = min n (l.length - off) := by
  simp only [slice, List.length_drop, List.length_take]
  omega

theorem slice_min_append_drop :
    slice l off (min (off + n) l.length) ++ l.drop (off + n) = l.drop off := by
  have hsplit := List.take_append_drop n (l.drop off)
  rw [List.drop_drop] at hsplit
  rw [slice, List.drop_take]
  rcases Nat.le_total (off + n) l.length with hle | hge
  · rw [min_eq_left hle, Nat.add_sub_cancel_left]
    exact hsplit
  · -- the last slice takes all that is left
    rw [min_eq_right hge, List.drop_eq_nil_of_le hge, List.append_nil,
      List.take_of_length_le (by rw [List.length_drop])]

/-- **Nothing lost, nothing repeated.** -/
theorem flatten_slices (n : ℕ) (hn : 0 < n) (l : List α) (off : ℕ) :
    (slices n hn l off).flatten = l.drop off := by
  induction off using slices.induct n hn l with
  | case1 off h ih =>
    rw [slices_of_lt h, List.flatten_cons, ih, slice_min_append_drop]
  | case2 off h =>
    rw [slices_of_ge h, List.drop_eq_nil_of_le (Nat.not_lt.mp h)]
    rfl

/-- Every slice has between `1` and `n` elements. -/
theorem length_mem_slices (n : ℕ) (hn : 0 < n) (l : List α) (off : ℕ) :
    ∀ s ∈ slices n hn l off, 1 ≤ s.length ∧ s.length ≤ n := by
  induction off using slices.induct n hn l with
  | case1 off h ih =>
    rw [slices_of_lt h]
    intro s hs
    rcases List.mem_cons.mp hs with rfl | hs
    · rw [length_slice_min h]
      omega
    · exact ih s hs
  | case2 off h =>
    rw [slices_of_ge h]
    simp

/-- Every slice but the last has exactly `n` elements. -/
theorem length_of_mem_dropLast_slices (n : ℕ) (hn : 0 < n) (l : List α) (off : ℕ) :
    ∀ s ∈ (slices n hn l off).dropLast, s.length = n := by
  induction off using slices.induct n hn l with
  | case1 off h ih =>
    rw [slices_of_lt h]
    intro s hs
    by_cases hnext : off + n < l.length
    · rw [slices_of_lt hnext, List.dropLast_cons_cons] at hs
      rcases List.mem_cons.mp hs with rfl | hs
      · rw [length_slice_min h]
        omega
      · rw [slices_of_lt hnext] at ih
        exact ih s hs
    · rw [slices_of_ge hnext] at hs
      simp at hs
  | case2 off h =>
    rw [slices_of_ge h]
    simp

/-- **Contiguous blocks.** -/
theorem eq_flatMap_filter {β : Type*} (n : ℕ) {l : List (ℕ × β)}
    (hsorted : l.Pairwise fun x y => x.1 ≤ y.1) (hlt : ∀ x ∈ l, x.1 < n) :
    l = (List.range n).flatMap fun i => l.filter fun x => x.1 = i := by
  induction n generalizing l with
  | zero =>
    cases l with
    | nil => rfl
    | cons x l => exact absurd (hlt x List.mem_cons_self) (Nat.not_lt_zero _)
  | succ n ih =>
    -- the elements below `n`, then those numbered `n`
    have hsplit : l = (l.filter fun x => x.1 < n) ++ l.filter fun x => x.1 = n := by
      clear ih
      induction l with
      | nil => rfl
      | cons x l ihl =>
        rw [List.pairwise_cons] at hsorted
        obtain ⟨hx, hl⟩ := List.forall_mem_cons.mp hlt
        have hrest := ihl hsorted.2 hl
        by_cases hlt : x.1 < n
        · simp only [List.filter_cons, hlt, decide_true, if_true, Nat.ne_of_lt hlt, decide_false,
            Bool.false_eq_true, if_false, List.cons_append]
          exact congrArg (x :: ·) hrest
        · have hxn : x.1 = n := by omega
          have hnone : (l.filter fun x => x.1 < n) = [] := by
            rw [List.filter_eq_nil_iff]
            intro y hy
            have := hsorted.1 y hy
            simp only [decide_eq_true_eq]
            omega
          rw [hnone, List.nil_append] at hrest
          simp only [List.filter_cons, hxn, Nat.lt_irrefl, decide_false, Bool.false_eq_true,
            if_false, hnone, List.nil_append, decide_true, if_true]
          exact congrArg (x :: ·) hrest
    have hlow := ih (hsorted.filter fun x => x.1 < n) (by simp)
    rw [List.range_succ, List.flatMap_append, List.flatMap_singleton]
    conv_lhs => rw [hsplit, hlow]
    congr 1
    refine List.flatMap_congr fun i hi => ?_
    rw [List.filter_filter]
    refine List.filter_congr fun x _ => ?_
    have := List.mem_range.mp hi
    simp only [Bool.and_eq_left_iff_imp, decide_eq_true_eq]
    omega

end Slicing
