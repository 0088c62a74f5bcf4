import Mathlib.Algebra.Order.Floor.Ring
import Mathlib.Data.Int.Log
import Mathlib.Data.Rat.Floor

/-!
# Rounding to a double

IEEE 754's `binary64` as the numbers of 53 bits times a power of two, and rounding to the nearest
of them with ties to even.  Infinities, NaN and the sign of zero are left out.

* `round_mul_zpow` — a mantissa of at most 53 bits is kept;
* `round_intCast_iff` — the integers that are kept;
* `exists_mantissa` — what a number is rounded to;
* `abs_round_sub` — by how much it is rounded;
* `round_mono` — rounding keeps the order.
-/

namespace Binary64

/-- The nearest integer, with ties to even. -/
def roundEven (x : ℚ) : ℤ :=
  if 2 * Int.fract x < 1 then ⌊x⌋
  else if 1 < 2 * Int.fract x then ⌊x⌋ + 1
  else if Even ⌊x⌋ then ⌊x⌋
  else ⌊x⌋ + 1

/-- The exponent of the last of the 53 bits. -/
def exponent (q : ℚ) : ℤ := max (Int.log 2 |q| - 52) (-1074)

/-- The nearest double, with ties to even. -/
def round (q : ℚ) : ℚ := roundEven (q / 2 ^ exponent q) * 2 ^ exponent q

/-- Numbers that do not round to infinity. -/
def InRange (q : ℚ) : Prop := |q| < 2 ^ 1024 - 2 ^ 970

instance (q : ℚ) : Decidable (InRange q) := inferInstanceAs (Decidable (_ < _))

@[simp] theorem roundEven_intCast (n : ℤ) : roundEven n = n := by
  rw [roundEven, Int.fract_intCast, if_pos (by norm_num), Int.floor_intCast]

theorem roundEven_le {x : ℚ} {n : ℤ} (h : x ≤ n) : roundEven x ≤ n := by
  have hfloor : ⌊x⌋ ≤ n := Int.floor_le_iff.mpr (lt_of_le_of_lt h (lt_add_one _))
  -- what is rounded up has a fraction
  have hup : ¬2 * Int.fract x < 1 → ⌊x⌋ + 1 ≤ n := by
    intro hfract
    have hlt : (⌊x⌋ : ℚ) < x := by
      have hdecomp := Int.floor_add_fract x
      linarith
    have : (⌊x⌋ : ℚ) < n := lt_of_lt_of_le hlt h
    exact_mod_cast this
  unfold roundEven
  split
  · exact hfloor
  · rename_i hfract
    split
    · exact hup hfract
    · split
      · exact hfloor
      · exact hup hfract

theorem le_roundEven {x : ℚ} {n : ℤ} (h : n ≤ x) : n ≤ roundEven x := by
  have hfloor : n ≤ ⌊x⌋ := Int.le_floor.mpr h
  unfold roundEven
  split
  · exact hfloor
  · split
    · omega
    · split <;> omega

/-- A number is rounded by at most a half. -/
theorem abs_roundEven_sub (x : ℚ) : |roundEven x - x| ≤ 1 / 2 := by
  have hdecomp := Int.floor_add_fract x
  have hnonneg := Int.fract_nonneg x
  have hlt := Int.fract_lt_one x
  unfold roundEven
  rw [abs_le]
  split
  · constructor <;> linarith
  · split
    · push_cast
      constructor <;> linarith
    · split
      · constructor <;> linarith
      · push_cast
        constructor <;> linarith

/-- A whole number of units in the last place is kept. -/
theorem round_of_eq_mul {q : ℚ} {n : ℤ} (h : q = n * 2 ^ exponent q) : round q = q := by
  have hquotient : q / 2 ^ exponent q = n := by
    rw [div_eq_iff (zpow_ne_zero _ two_ne_zero)]
    exact h
  rw [round, hquotient, roundEven_intCast, ← h]

/-- The number lies below the first power of two that needs a larger exponent. -/
theorem abs_lt_zpow_exponent (q : ℚ) : |q| < 2 ^ (exponent q + 53) := by
  have hlog : |q| < (2 : ℕ) ^ (Int.log 2 |q| + 1) := Int.lt_zpow_succ_log_self (by decide) |q|
  refine lt_of_lt_of_le hlog ?_
  rw [Nat.cast_ofNat]
  refine zpow_le_zpow_right₀ (by norm_num) ?_
  rw [exponent]
  omega

theorem exponent_le {q : ℚ} (hq : q ≠ 0) {e : ℤ} (h : |q| < 2 ^ (e + 53)) (he : -1074 ≤ e) :
    exponent q ≤ e := by
  have hlog : Int.log 2 |q| < e + 53 := by
    refine (Int.lt_zpow_iff_log_lt (by decide) (abs_pos.mpr hq)).mp ?_
    rwa [Nat.cast_ofNat]
  rw [exponent]
  omega

/-- A mantissa of 53 bits is kept. -/
theorem round_mul_zpow_of_lt {m e : ℤ} (hm : |m| < 2 ^ 53) (he : -1074 ≤ e) :
    round (m * 2 ^ e) = m * 2 ^ e := by
  by_cases hzero : m = 0
  · rw [hzero, Int.cast_zero, zero_mul]
    exact round_of_eq_mul (n := 0) (by rw [Int.cast_zero, zero_mul])
  have hne : (m : ℚ) * 2 ^ e ≠ 0 :=
    mul_ne_zero (Int.cast_ne_zero.mpr hzero) (zpow_ne_zero _ two_ne_zero)
  have hlt : |(m : ℚ) * 2 ^ e| < 2 ^ (e + 53) := by
    have hcast : |(m : ℚ)| < 2 ^ (53 : ℤ) := by
      rw [← Int.cast_abs]
      exact_mod_cast hm
    have hpos : (0 : ℚ) < 2 ^ e := zpow_pos two_pos e
    rw [abs_mul, abs_of_pos hpos, add_comm e, zpow_add₀ two_ne_zero]
    exact mul_lt_mul_of_pos_right hcast hpos
  have hle := exponent_le hne hlt he
  obtain ⟨k, hk⟩ := Int.eq_ofNat_of_zero_le (Int.sub_nonneg_of_le hle)
  refine round_of_eq_mul (n := m * 2 ^ k) ?_
  rw [Int.cast_mul, Int.cast_pow, Int.cast_ofNat, mul_assoc, ← zpow_natCast,
    ← zpow_add₀ two_ne_zero]
  congr 2
  omega

/-- **A mantissa of at most 53 bits is kept.** -/
theorem round_mul_zpow {m e : ℤ} (hm : |m| ≤ 2 ^ 53) (he : -1074 ≤ e) :
    round (m * 2 ^ e) = m * 2 ^ e := by
  rcases lt_or_eq_of_le hm with hlt | heq
  · exact round_mul_zpow_of_lt hlt he
  · -- the power of two itself is a smaller mantissa with a larger exponent
    have hhalf : ∃ m' : ℤ, |m'| < 2 ^ 53 ∧ m = m' * 2 := by
      rcases abs_eq (by positivity) |>.mp heq with h | h
      · exact ⟨2 ^ 52, by norm_num, by rw [h]; norm_num⟩
      · exact ⟨-2 ^ 52, by norm_num, by rw [h]; norm_num⟩
    obtain ⟨m', hm', rfl⟩ := hhalf
    have hshift : ((m' * 2 : ℤ) : ℚ) * 2 ^ e = m' * 2 ^ (e + 1) := by
      rw [Int.cast_mul, Int.cast_ofNat, zpow_add_one₀ two_ne_zero]
      ring
    rw [hshift]
    exact round_mul_zpow_of_lt hm' (by omega)

/-- Integers of at most 53 bits are kept. -/
theorem round_intCast {n : ℤ} (h : |n| ≤ 2 ^ 53) : round n = n := by
  have hround := round_mul_zpow h (show -1074 ≤ (0 : ℤ) by decide)
  rwa [zpow_zero, mul_one] at hround

theorem round_zero : round 0 = 0 := by exact_mod_cast round_intCast (n := 0) (by norm_num)

/-- An integer whose last bit is not below the unit has at most 53 bits. -/
theorem abs_le_of_exponent_le {n : ℤ} (h : exponent n ≤ 0) : |n| ≤ 2 ^ 53 := by
  have hlt := abs_lt_zpow_exponent (n : ℚ)
  have hle : (2 : ℚ) ^ (exponent (n : ℚ) + 53) ≤ 2 ^ (53 : ℤ) :=
    zpow_le_zpow_right₀ (by norm_num) (by omega)
  have hcast : |(n : ℚ)| ≤ 2 ^ 53 := (hlt.trans_le hle).le
  rw [← Int.cast_abs] at hcast
  exact_mod_cast hcast

/-- An integer is rounded to an integer. -/
theorem exists_round_intCast (n : ℤ) : ∃ r : ℤ, round n = r := by
  rcases le_total 0 (exponent (n : ℚ)) with hexp | hexp
  · obtain ⟨k, hk⟩ := Int.eq_ofNat_of_zero_le hexp
    refine ⟨roundEven ((n : ℚ) / 2 ^ exponent (n : ℚ)) * 2 ^ k, ?_⟩
    rw [round, hk, zpow_natCast]
    push_cast
    rfl
  · exact ⟨n, round_intCast (abs_le_of_exponent_le hexp)⟩

/-- **The integers that are kept**: 53 bits times a power of two. -/
theorem round_intCast_iff (n : ℤ) :
    round n = n ↔ ∃ (m : ℤ) (k : ℕ), |m| ≤ 2 ^ 53 ∧ n = m * 2 ^ k := by
  constructor
  · intro h
    rcases le_total (exponent (n : ℚ)) 0 with hexp | hexp
    · exact ⟨n, 0, abs_le_of_exponent_le hexp, by rw [pow_zero, mul_one]⟩
    · obtain ⟨k, hk⟩ := Int.eq_ofNat_of_zero_le hexp
      have hlt := abs_lt_zpow_exponent (n : ℚ)
      rw [round, hk] at h
      rw [hk] at hlt
      generalize roundEven ((n : ℚ) / 2 ^ (k : ℤ)) = m at h
      rw [zpow_natCast] at h
      refine ⟨m, k, ?_, by exact_mod_cast h.symm⟩
      have hpos : (0 : ℚ) < 2 ^ k := by positivity
      rw [zpow_add₀ two_ne_zero, zpow_natCast, ← h, abs_mul, abs_of_pos hpos, mul_comm] at hlt
      have hcast : |(m : ℚ)| < 2 ^ (53 : ℤ) := lt_of_mul_lt_mul_left hlt hpos.le
      rw [← Int.cast_abs] at hcast
      exact le_of_lt (by exact_mod_cast hcast)
  · rintro ⟨m, k, hm, rfl⟩
    have hround := round_mul_zpow hm (show -1074 ≤ (k : ℤ) by omega)
    rw [zpow_natCast] at hround
    exact_mod_cast hround

/-! ### The rounded number -/

/-- **The rounded number**: at most 53 bits in units of the last place. -/
theorem exists_mantissa (q : ℚ) : ∃ m : ℤ, |m| ≤ 2 ^ 53 ∧ round q = m * 2 ^ exponent q := by
  refine ⟨roundEven (q / 2 ^ exponent q), ?_, rfl⟩
  have hpos : (0 : ℚ) < 2 ^ exponent q := zpow_pos two_pos _
  have hlt : |q / 2 ^ exponent q| < 2 ^ 53 := by
    rw [abs_div, abs_of_pos hpos, div_lt_iff₀ hpos]
    have habs := abs_lt_zpow_exponent q
    rw [zpow_add₀ two_ne_zero, mul_comm] at habs
    exact_mod_cast habs
  obtain ⟨hlo, hhi⟩ := abs_lt.mp hlt
  rw [abs_le]
  constructor
  · refine le_roundEven ?_
    push_cast
    exact hlo.le
  · refine roundEven_le ?_
    push_cast
    exact hhi.le

/-- A number is rounded by at most half a unit in the last place. -/
theorem abs_round_sub (q : ℚ) : |round q - q| ≤ 2 ^ exponent q / 2 := by
  have hpos : (0 : ℚ) < 2 ^ exponent q := zpow_pos two_pos _
  have hfactor : round q - q = (roundEven (q / 2 ^ exponent q) - q / 2 ^ exponent q) *
      2 ^ exponent q := by
    rw [sub_mul, div_mul_cancel₀ _ hpos.ne']
    rfl
  rw [hfactor, abs_mul, abs_of_pos hpos]
  have hhalf := mul_le_mul_of_nonneg_right (abs_roundEven_sub (q / 2 ^ exponent q)) hpos.le
  linarith

/-- A double below a power of two stays below it. -/
theorem abs_round_le {q : ℚ} {k : ℤ} (h : |q| ≤ 2 ^ k) (hk : -1074 ≤ k) : |round q| ≤ 2 ^ k := by
  by_cases hzero : q = 0
  · rw [hzero, round_zero, abs_zero]
    exact (zpow_pos two_pos k).le
  have hexp : exponent q ≤ k := by
    refine exponent_le hzero (lt_of_le_of_lt h ?_) hk
    exact zpow_lt_zpow_right₀ (by norm_num) (by omega)
  obtain ⟨d, hd⟩ := Int.eq_ofNat_of_zero_le (Int.sub_nonneg_of_le hexp)
  have hpos : (0 : ℚ) < 2 ^ exponent q := zpow_pos two_pos _
  have hsplit : (2 : ℚ) ^ k = ((2 ^ d : ℤ) : ℚ) * 2 ^ exponent q := by
    push_cast
    rw [← zpow_natCast, ← zpow_add₀ two_ne_zero]
    congr 1
    omega
  have hquotient : |q / 2 ^ exponent q| ≤ ((2 ^ d : ℤ) : ℚ) := by
    rw [abs_div, abs_of_pos hpos, div_le_iff₀ hpos, ← hsplit]
    exact h
  obtain ⟨hlo, hhi⟩ := abs_le.mp hquotient
  rw [round, abs_mul, abs_of_pos hpos, hsplit, ← Int.cast_abs]
  refine mul_le_mul_of_nonneg_right (Int.cast_le.mpr ?_) hpos.le
  rw [abs_le]
  refine ⟨le_roundEven ?_, roundEven_le hhi⟩
  rw [Int.cast_neg]
  exact hlo

theorem abs_round_sub_le {q : ℚ} {e : ℤ} (h : |q| < 2 ^ (e + 53)) (he : -1074 ≤ e) :
    |round q - q| ≤ 2 ^ e / 2 := by
  by_cases hzero : q = 0
  · rw [hzero, round_zero, sub_zero, abs_zero]
    exact (half_pos (zpow_pos two_pos e)).le
  · have hle : (2 : ℚ) ^ exponent q ≤ 2 ^ e :=
      zpow_le_zpow_right₀ (by norm_num) (exponent_le hzero h he)
    have hround := abs_round_sub q
    linarith

/-- The exponent of a number of exactly 53 bits. -/
theorem exponent_eq {q : ℚ} {e : ℤ} (hlo : 2 ^ (e + 52) ≤ |q|) (hhi : |q| < 2 ^ (e + 53))
    (he : -1074 ≤ e) : exponent q = e := by
  have hpos : (0 : ℚ) < |q| := lt_of_lt_of_le (zpow_pos two_pos _) hlo
  have hne : q ≠ 0 := abs_pos.mp hpos
  refine le_antisymm (exponent_le hne hhi he) ?_
  have hlog : e + 52 ≤ Int.log 2 |q| := by
    refine (Int.zpow_le_iff_le_log (by decide) hpos).mp ?_
    rwa [Nat.cast_ofNat]
  rw [exponent]
  omega

/-- **The last half unit below a power of two** is rounded up to it. -/
theorem round_eq_zpow {q : ℚ} {e : ℤ} (hlo : 2 ^ (e + 53) - 2 ^ e / 2 ≤ q)
    (hhi : q < 2 ^ (e + 53)) (he : -1074 ≤ e) : round q = 2 ^ (e + 53) := by
  have hpos : (0 : ℚ) < 2 ^ e := zpow_pos two_pos e
  have hpow : ∀ k : ℕ, (2 : ℚ) ^ (e + k) = 2 ^ e * 2 ^ k := by
    intro k
    rw [zpow_add₀ two_ne_zero, zpow_natCast]
  have h53 : (2 : ℚ) ^ (e + 53) = 2 ^ e * 2 ^ 53 := hpow 53
  have h52 : (2 : ℚ) ^ (e + 52) = 2 ^ e * 2 ^ 52 := hpow 52
  rw [h53] at hlo hhi ⊢
  have hq : 0 < q := by nlinarith
  have hexp : exponent q = e := by
    refine exponent_eq ?_ ?_ he
    · rw [abs_of_pos hq, h52]
      nlinarith
    · rw [abs_of_pos hq, h53]
      exact hhi
  have hquotient : q / 2 ^ e < 2 ^ 53 := by
    rw [div_lt_iff₀ hpos]
    linarith
  have hhalf : (2 : ℚ) ^ 53 - 1 / 2 ≤ q / 2 ^ e := by
    rw [le_div_iff₀ hpos]
    linarith
  have hfloor : ⌊q / 2 ^ e⌋ = 2 ^ 53 - 1 := by
    rw [Int.floor_eq_iff]
    push_cast
    constructor <;> linarith
  have hfract : ¬2 * Int.fract (q / 2 ^ e) < 1 := by
    have hdecomp := Int.floor_add_fract (q / 2 ^ e)
    rw [hfloor] at hdecomp
    push_cast at hdecomp
    linarith
  have hodd : ¬Even (2 ^ 53 - 1 : ℤ) := by decide
  have hround : roundEven (q / 2 ^ e) = 2 ^ 53 := by
    rw [roundEven, if_neg hfract, hfloor, if_neg hodd]
    split <;> norm_num
  rw [round, hexp, hround, mul_comm]
  push_cast
  rfl

theorem neg_1074_le_exponent (q : ℚ) : -1074 ≤ exponent q := le_max_right _ _

theorem round_nonneg {q : ℚ} (h : 0 ≤ q) : 0 ≤ round q := by
  have hunit : (0 : ℚ) < 2 ^ exponent q := zpow_pos two_pos _
  have hcast : ((0 : ℤ) : ℚ) ≤ q / 2 ^ exponent q := by
    rw [Int.cast_zero]
    exact div_nonneg h hunit.le
  exact mul_nonneg (Int.cast_nonneg (le_roundEven hcast)) hunit.le

/-- **A rounded number is a double.** -/
theorem round_round (q : ℚ) : round (round q) = round q := by
  obtain ⟨m, hm, hround⟩ := exists_mantissa q
  rw [hround]
  exact round_mul_zpow hm (neg_1074_le_exponent q)

/-- A number in range is rounded to one in range. -/
theorem inRange_round {q : ℚ} (h : InRange q) : InRange (round q) := by
  rw [InRange] at h
  have hexp : exponent q ≤ 971 := by
    by_cases hzero : q = 0
    · subst hzero
      decide +kernel
    · refine exponent_le hzero (lt_trans h ?_) (by decide)
      decide +kernel
  have hpos : (0 : ℚ) < 2 ^ exponent q := zpow_pos two_pos _
  rcases lt_or_eq_of_le hexp with hlt | heq
  · -- a smaller exponent leaves a bit of room
    have hbelow : |q| ≤ 2 ^ (1023 : ℤ) := by
      have hbound := abs_lt_zpow_exponent q
      exact hbound.le.trans (zpow_le_zpow_right₀ (by norm_num) (by omega))
    exact lt_of_le_of_lt (abs_round_le hbelow (by decide)) (by decide +kernel)
  · -- with the last exponent, the significand does not reach 53 bits
    have hquotient : |q / 2 ^ exponent q| < 2 ^ 53 - 1 / 2 := by
      rw [abs_div, abs_of_pos hpos, div_lt_iff₀ hpos, heq]
      exact lt_of_lt_of_eq h (by decide +kernel)
    have hnear := abs_roundEven_sub (q / 2 ^ exponent q)
    have hmantissa : |roundEven (q / 2 ^ exponent q)| ≤ 2 ^ 53 - 1 := by
      have hcast : (|roundEven (q / 2 ^ exponent q)| : ℚ) < 2 ^ 53 := by
        have htriangle := abs_sub_abs_le_abs_sub ((roundEven (q / 2 ^ exponent q) : ℤ) : ℚ)
          (q / 2 ^ exponent q)
        linarith
      have hint : |roundEven (q / 2 ^ exponent q)| < 2 ^ 53 := by exact_mod_cast hcast
      omega
    have hcast : |((roundEven (q / 2 ^ exponent q) : ℤ) : ℚ)| ≤ 2 ^ 53 - 1 := by
      exact_mod_cast hmantissa
    rw [InRange, round, abs_mul, abs_of_pos hpos]
    refine lt_of_le_of_lt (mul_le_mul_of_nonneg_right hcast hpos.le) ?_
    rw [heq]
    decide +kernel

theorem roundEven_mono {x y : ℚ} (h : x ≤ y) : roundEven x ≤ roundEven y := by
  have hx := Int.floor_add_fract x
  have hy := Int.floor_add_fract y
  have hfloor : ⌊x⌋ ≤ ⌊y⌋ := Int.floor_mono h
  rcases lt_or_eq_of_le hfloor with hlt | heq
  · -- the integers above one and below the other keep them apart
    have hup : roundEven x ≤ ⌊x⌋ + 1 := roundEven_le (by exact_mod_cast (Int.lt_floor_add_one x).le)
    have hdown : ⌊y⌋ ≤ roundEven y := le_roundEven (Int.floor_le y)
    omega
  · have hfract : Int.fract x ≤ Int.fract y := by
      rw [heq] at hx
      linarith
    unfold roundEven
    rw [heq]
    by_cases hx₁ : 2 * Int.fract x < 1
    · rw [if_pos hx₁]
      split
      · exact le_rfl
      · split
        · omega
        · split <;> omega
    rw [if_neg hx₁, if_neg (show ¬2 * Int.fract y < 1 by linarith)]
    by_cases hx₂ : 1 < 2 * Int.fract x
    · rw [if_pos hx₂, if_pos (show 1 < 2 * Int.fract y by linarith)]
    rw [if_neg hx₂]
    by_cases heven : Even ⌊y⌋
    · rw [if_pos heven]
      split <;> omega
    · rw [if_neg heven, ite_self]

theorem exponent_mono {q q' : ℚ} (hpos : 0 < q) (h : q ≤ q') : exponent q ≤ exponent q' := by
  have hlog : Int.log 2 q ≤ Int.log 2 q' := Int.log_mono_right hpos h
  rw [exponent, exponent, abs_of_pos hpos, abs_of_pos (hpos.trans_le h)]
  omega

/-- **Rounding keeps the order** of positive numbers. -/
theorem round_mono {q q' : ℚ} (hpos : 0 < q) (h : q ≤ q') : round q ≤ round q' := by
  have hpos' : 0 < q' := hpos.trans_le h
  rcases lt_or_eq_of_le (exponent_mono hpos h) with hlt | heq
  · -- a power of two lies between the two
    have hexp : exponent q' = Int.log 2 q' - 52 := by
      have hlo := (neg_1074_le_exponent q).trans_lt hlt
      rw [exponent, abs_of_pos hpos'] at hlo ⊢
      omega
    have hbelow : round q ≤ 2 ^ (exponent q' + 52) := by
      refine (le_abs_self _).trans (abs_round_le ((abs_lt_zpow_exponent q).le.trans ?_) ?_)
      · exact zpow_le_zpow_right₀ one_le_two (by omega)
      · have hlo := neg_1074_le_exponent q
        omega
    have habove : ((2 ^ 52 : ℤ) : ℚ) ≤ q' / 2 ^ exponent q' := by
      have hlog : ((2 : ℕ) : ℚ) ^ Int.log 2 q' ≤ q' := Int.zpow_log_le_self (by decide) hpos'
      rw [le_div_iff₀ (zpow_pos two_pos _)]
      refine le_trans (le_of_eq ?_) hlog
      rw [show ((2 ^ 52 : ℤ) : ℚ) = (2 : ℚ) ^ (52 : ℤ) by norm_num, Nat.cast_ofNat,
        ← zpow_add₀ two_ne_zero, hexp]
      congr 1
      omega
    refine hbelow.trans ?_
    rw [round, zpow_add₀ two_ne_zero, mul_comm]
    refine mul_le_mul_of_nonneg_right ?_ (zpow_pos two_pos _).le
    rw [show (2 : ℚ) ^ (52 : ℤ) = ((2 ^ 52 : ℤ) : ℚ) by norm_num]
    exact Int.cast_le.mpr (le_roundEven habove)
  · rw [round, round, heq]
    have hunit : (0 : ℚ) < 2 ^ exponent q' := zpow_pos two_pos _
    refine mul_le_mul_of_nonneg_right (Int.cast_le.mpr (roundEven_mono ?_)) hunit.le
    exact div_le_div_of_nonneg_right h hunit.le

end Binary64
