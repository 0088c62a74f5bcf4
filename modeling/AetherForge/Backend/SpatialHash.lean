import Mathlib.Algebra.Order.Ring.Rat
import Mathlib.Data.Rat.Floor
import Mathlib.Data.Int.Range
import AetherForge.Library.GridCells

/-!
# The spatial hash

The hash of `placement.go`: placed discs bucketed by grid cell, and the overlap query that
scans the cells around a point.

`Represents h discs` ties a hash to the discs inserted so far: each disc sits in the bucket of
its own cell and nowhere else, and no radius exceeds the hash's `maxR`.  `newSpatialHash`
establishes it, `insert` keeps it, and under it the query answers as a linear scan of the
discs would (`overlaps_iff`).  Hence a filled hash is a linear scan, whatever its cell size
(`overlaps_insertAll`).
-/

namespace AetherForge

open GridCells

/-- `placed`. -/
abbrev Placed := Disc ℚ

structure SpatialHash where
  cell : ℚ
  maxR : ℚ
  cells : ℤ × ℤ → List Placed

def newSpatialHash (maxRadius : ℚ) : SpatialHash :=
  let cell := maxRadius * 2
  ⟨if cell ≤ 0 then 1 else cell, maxRadius, fun _ => []⟩

namespace SpatialHash

def key (h : SpatialHash) (x y : ℚ) : ℤ × ℤ := (⌊x / h.cell⌋, ⌊y / h.cell⌋)

def insert (h : SpatialHash) (p : Placed) : SpatialHash :=
  let k := h.key p.x p.y
  { h with cells := Function.update h.cells k (h.cells k ++ [p]) }

/-- The innermost test of `overlaps` for one disc of a bucket. -/
def hits (x y r : ℚ) (p : Placed) : Bool :=
  let minDist := r + p.r
  let ddx := x - p.x
  let ddy := y - p.y
  ddx * ddx + ddy * ddy < minDist * minDist

def overlaps (h : SpatialHash) (x y r : ℚ) : Bool :=
  let reach := r + h.maxR
  let span := ⌈reach / h.cell⌉
  let base := h.key x y
  (Int.range (-span) (span + 1)).any fun dx =>
    (Int.range (-span) (span + 1)).any fun dy =>
      (h.cells (base.1 + dx, base.2 + dy)).any (hits x y r)

theorem hits_iff {x y r : ℚ} {p : Placed} :
    hits x y r p = true ↔ Disc.Overlaps ⟨x, y, r⟩ p := by
  simp only [hits, decide_eq_true_eq, Disc.Overlaps, sq]

/-- The hash holds exactly these discs, each in the bucket of its cell. -/
structure Represents (h : SpatialHash) (discs : List Placed) : Prop where
  cell_pos : 0 < h.cell
  radius : ∀ p ∈ discs, 0 ≤ p.r ∧ p.r ≤ h.maxR
  bucket : ∀ k p, p ∈ h.cells k ↔ p ∈ discs ∧ h.key p.x p.y = k

theorem represents_new (maxRadius : ℚ) : (newSpatialHash maxRadius).Represents [] := by
  refine ⟨?_, by simp, by simp [newSpatialHash]⟩
  simp only [newSpatialHash]
  split
  · exact one_pos
  · rename_i h
    exact not_le.mp h

theorem Represents.insert {h : SpatialHash} {discs : List Placed} (hrep : h.Represents discs)
    {p : Placed} (hp : 0 ≤ p.r ∧ p.r ≤ h.maxR) : (h.insert p).Represents (discs ++ [p]) := by
  refine ⟨hrep.cell_pos, ?_, ?_⟩
  · intro q hq
    rcases List.mem_append.mp hq with hq | hq
    · exact hrep.radius q hq
    · rw [List.mem_singleton.mp hq]
      exact hp
  · intro k q
    have hkey : (h.insert p).key q.x q.y = h.key q.x q.y := rfl
    rw [hkey, List.mem_append, List.mem_singleton]
    simp only [SpatialHash.insert]
    by_cases hk : k = h.key p.x p.y
    · rw [hk, Function.update_self, List.mem_append, List.mem_singleton, hrep.bucket]
      constructor
      · rintro (⟨hq, hkq⟩ | rfl)
        · exact ⟨.inl hq, hkq⟩
        · exact ⟨.inr rfl, rfl⟩
      · rintro ⟨hq | rfl, hkq⟩
        · exact .inl ⟨hq, hkq⟩
        · exact .inr rfl
    · rw [Function.update_of_ne hk, hrep.bucket]
      constructor
      · rintro ⟨hq, hkq⟩
        exact ⟨.inl hq, hkq⟩
      · rintro ⟨hq | rfl, hkq⟩
        · exact ⟨hq, hkq⟩
        · exact absurd hkq.symm hk

theorem mem_window {span d : ℤ} : d ∈ Int.range (-span) (span + 1) ↔ |d| ≤ span := by
  rw [Int.mem_range_iff, abs_le, Int.lt_add_one_iff]

/-- **The query agrees with a linear scan.**  `overlaps` answers `true` exactly when some
inserted disc overlaps the queried one. -/
theorem overlaps_iff {h : SpatialHash} {discs : List Placed} (hrep : h.Represents discs)
    {x y r : ℚ} (hr : 0 ≤ r) :
    h.overlaps x y r = true ↔ ∃ p ∈ discs, Disc.Overlaps ⟨x, y, r⟩ p := by
  simp only [overlaps, List.any_eq_true, mem_window, hits_iff, hrep.bucket]
  constructor
  · rintro ⟨_, _, _, _, p, ⟨hp, _⟩, hov⟩
    exact ⟨p, hp, hov⟩
  · rintro ⟨p, hp, hov⟩
    obtain ⟨hp0, hpmax⟩ := hrep.radius p hp
    obtain ⟨hx, hy⟩ := hov.abs_cell_sub_le hrep.cell_pos (add_nonneg hr hp0)
      (add_le_add_right hpmax r)
    -- the offsets that lead from the query's cell to the disc's own
    refine ⟨⌊p.x / h.cell⌋ - ⌊x / h.cell⌋, ?_, ⌊p.y / h.cell⌋ - ⌊y / h.cell⌋, ?_, p, ⟨hp, ?_⟩,
      hov⟩
    · rw [abs_sub_comm]
      exact hx
    · rw [abs_sub_comm]
      exact hy
    · simp [key]

/-! ### Filling a hash -/

/-- The hash after inserting some discs, in order. -/
def insertAll (h : SpatialHash) (discs : List Placed) : SpatialHash := discs.foldl insert h

/-- Inserting discs within the hash's radius keeps it representing all of them. -/
theorem Represents.insertAll {h : SpatialHash} {before discs : List Placed}
    (hrep : h.Represents before) (hdiscs : ∀ p ∈ discs, 0 ≤ p.r ∧ p.r ≤ h.maxR) :
    (h.insertAll discs).Represents (before ++ discs) := by
  induction discs generalizing h before with
  | nil =>
    rw [List.append_nil]
    exact hrep
  | cons p rest ih =>
    obtain ⟨hp, hrest⟩ := List.forall_mem_cons.mp hdiscs
    have hins := ih (hrep.insert hp) hrest
    rw [List.append_assoc] at hins
    exact hins

/-- An empty hash represents no discs, whatever its positive cell size. -/
theorem represents_empty (maxRadius : ℚ) {cell : ℚ} (hcell : 0 < cell) :
    (⟨cell, maxRadius, fun _ => []⟩ : SpatialHash).Represents [] :=
  ⟨hcell, by simp, by simp⟩

/-- **The hash is a linear scan.**  After any sequence of insertions within the radius the hash
was made for, a query answers `true` exactly when some inserted disc is closer than the two radii
together; a hash with another cell size answers the same. -/
theorem overlaps_insertAll (maxR : ℚ) (discs : List Placed)
    (hdiscs : ∀ p ∈ discs, 0 ≤ p.r ∧ p.r ≤ maxR) (x y r : ℚ) (hr : 0 ≤ r) :
    (((newSpatialHash maxR).insertAll discs).overlaps x y r = true ↔
        ∃ p ∈ discs, (x - p.x) ^ 2 + (y - p.y) ^ 2 < (r + p.r) ^ 2) ∧
      ∀ cell, 0 < cell →
        ((⟨cell, maxR, fun _ => []⟩ : SpatialHash).insertAll discs).overlaps x y r =
          ((newSpatialHash maxR).insertAll discs).overlaps x y r := by
  have hnew : ((newSpatialHash maxR).insertAll discs).Represents discs :=
    (represents_new maxR).insertAll hdiscs
  refine ⟨overlaps_iff hnew hr, fun cell hcell => ?_⟩
  have hother : ((⟨cell, maxR, fun _ => []⟩ : SpatialHash).insertAll discs).Represents discs :=
    (represents_empty maxR hcell).insertAll hdiscs
  rw [Bool.eq_iff_iff, overlaps_iff hother hr, overlaps_iff hnew hr]

/-- A query larger than any stored disc, from the other side of the origin. -/
theorem overlaps_insertAll_across :
    (((newSpatialHash 2).insertAll [⟨-7, -1, 2⟩, ⟨9, 4, 0⟩]).overlaps (1 / 2) 0 6 = true ↔
        ∃ p ∈ [(⟨-7, -1, 2⟩ : Placed), ⟨9, 4, 0⟩],
          (1 / 2 - p.x) ^ 2 + (0 - p.y) ^ 2 < (6 + p.r) ^ 2) ∧
      ∀ cell, 0 < cell →
        ((⟨cell, 2, fun _ => []⟩ : SpatialHash).insertAll [⟨-7, -1, 2⟩, ⟨9, 4, 0⟩]).overlaps
            (1 / 2) 0 6 =
          ((newSpatialHash 2).insertAll [⟨-7, -1, 2⟩, ⟨9, 4, 0⟩]).overlaps (1 / 2) 0 6 :=
  overlaps_insertAll 2 [⟨-7, -1, 2⟩, ⟨9, 4, 0⟩] (by decide +kernel) (1 / 2) 0 6 (by decide +kernel)

end SpatialHash

end AetherForge
