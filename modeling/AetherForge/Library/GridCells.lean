import Mathlib.Algebra.Order.Floor.Ring
import Mathlib.Algebra.Order.Field.Basic
import Mathlib.Tactic.Linarith

/-!
# Discs and the cells of a uniform grid

Over any ordered field with a floor: discs, when two of them overlap, and the grid cell of a
coordinate.  Two coordinates closer than `d` lie in cells at most `⌈d / c⌉` apart, through
floors of negative quotients and exact cell boundaries alike (`abs_cell_sub_le`), so a disc
that overlaps a query is found within that many cells of it (`Disc.Overlaps.abs_cell_sub_le`).
-/

namespace GridCells

variable {K : Type*}

/-- A disc: its centre and its radius. -/
@[ext] structure Disc (K : Type*) where
  x : K
  y : K
  r : K
  deriving DecidableEq

section Geometry

variable [Field K] [LinearOrder K] [IsStrictOrderedRing K]

/-- Two discs overlap: their centres are closer than the sum of their radii. -/
def Disc.Overlaps (p q : Disc K) : Prop :=
  (p.x - q.x) ^ 2 + (p.y - q.y) ^ 2 < (p.r + q.r) ^ 2

instance (p q : Disc K) : Decidable (p.Overlaps q) := inferInstanceAs (Decidable (_ < _))

omit [IsStrictOrderedRing K] in
theorem Disc.Overlaps.symm {p q : Disc K} (h : p.Overlaps q) : q.Overlaps p := by
  unfold Disc.Overlaps at h ⊢
  rw [← neg_sub p.x q.x, ← neg_sub p.y q.y, neg_sq, neg_sq, add_comm q.r p.r]
  exact h

/-- Overlapping discs are closer than the sum of their radii along each axis. -/
theorem Disc.Overlaps.abs_sub_lt {p q : Disc K} (h : p.Overlaps q) (hr : 0 ≤ p.r + q.r) :
    |p.x - q.x| < p.r + q.r ∧ |p.y - q.y| < p.r + q.r := by
  unfold Disc.Overlaps at h
  constructor
  · refine abs_lt_of_sq_lt_sq ?_ hr
    linarith [sq_nonneg (p.y - q.y)]
  · refine abs_lt_of_sq_lt_sq ?_ hr
    linarith [sq_nonneg (p.x - q.x)]

end Geometry

variable [Field K] [LinearOrder K] [IsStrictOrderedRing K] [FloorRing K]

/-- The cell of a coordinate in a grid with cells of size `c`. -/
def cell (c x : K) : ℤ := ⌊x / c⌋

/-- **Close coordinates have close cells.** -/
theorem abs_cell_sub_le {c d x x' : K} (hc : 0 < c) (h : |x - x'| < d) :
    |cell c x - cell c x'| ≤ ⌈d / c⌉ := by
  have hquot : |x / c - x' / c| < ⌈d / c⌉ := by
    rw [← sub_div, abs_div, abs_of_pos hc]
    exact lt_of_lt_of_le (div_lt_div_of_pos_right h hc) (Int.le_ceil _)
  obtain ⟨hlo, hhi⟩ := abs_lt.mp hquot
  have hx := Int.floor_le (x / c)
  have hx1 := Int.lt_floor_add_one (x / c)
  have hx' := Int.floor_le (x' / c)
  have hx1' := Int.lt_floor_add_one (x' / c)
  -- each floor is within one of its quotient, so the integers differ by less than one more
  have hup : cell c x < cell c x' + ⌈d / c⌉ + 1 := by
    have : ((cell c x : ℤ) : K) < ((cell c x' + ⌈d / c⌉ + 1 : ℤ) : K) := by
      push_cast
      unfold cell
      linarith
    exact_mod_cast this
  have hdown : cell c x' < cell c x + ⌈d / c⌉ + 1 := by
    have : ((cell c x' : ℤ) : K) < ((cell c x + ⌈d / c⌉ + 1 : ℤ) : K) := by
      push_cast
      unfold cell
      linarith
    exact_mod_cast this
  rw [abs_le]
  constructor <;> omega

/-- **A disc that overlaps a query lies within `⌈reach / c⌉` cells of it**, for any reach that
covers both radii. -/
theorem Disc.Overlaps.abs_cell_sub_le {p q : Disc K} {c reach : K} (hc : 0 < c)
    (h : p.Overlaps q) (hr : 0 ≤ p.r + q.r) (hreach : p.r + q.r ≤ reach) :
    |cell c p.x - cell c q.x| ≤ ⌈reach / c⌉ ∧ |cell c p.y - cell c q.y| ≤ ⌈reach / c⌉ := by
  obtain ⟨hx, hy⟩ := h.abs_sub_lt hr
  exact ⟨GridCells.abs_cell_sub_le hc (hx.trans_le hreach),
    GridCells.abs_cell_sub_le hc (hy.trans_le hreach)⟩

end GridCells
