import Mathlib.Data.List.Sort
import Mathlib.Order.Defs.LinearOrder

/-!
# Sorting by a key

An insertion sort whose comparison `r` compares keys of a linear order.

* `insertionSort_pairwise_lt` — elements with distinct keys come out in strictly ascending order
  of their keys;
* `insertionSort_eq_of_perm` — their order before the sort does not matter;
* `insertionSort_filter` — sorting some of them keeps their places.
-/

namespace KeySort

variable {α κ : Type*} [LinearOrder κ] {r : α → α → Prop} [DecidableRel r] {key : α → κ}

/-- The comparison compares keys. -/
def Compares (r : α → α → Prop) (key : α → κ) : Prop := ∀ a b, r a b ↔ key a ≤ key b

theorem insertionSort_pairwise (hr : Compares r key) (l : List α) :
    (l.insertionSort r).Pairwise fun a b => key a ≤ key b := by
  have htotal : Std.Total r := ⟨fun a b => by rw [hr a b, hr b a]; exact le_total _ _⟩
  have htrans : IsTrans α r := ⟨fun a b c hab hbc => by
    rw [hr] at hab hbc ⊢
    exact hab.trans hbc⟩
  exact (List.pairwise_insertionSort r l).imp fun h => (hr _ _).mp h

/-- **Sorted.**  Distinct keys come out strictly ascending. -/
theorem insertionSort_pairwise_lt (hr : Compares r key) {l : List α} (hnd : (l.map key).Nodup) :
    (l.insertionSort r).Pairwise fun a b => key a < key b := by
  have hperm := (List.perm_insertionSort r l).map key
  have hne : (l.insertionSort r).Pairwise fun a b => key a ≠ key b :=
    List.pairwise_map.mp (hperm.nodup_iff.mpr hnd)
  exact (insertionSort_pairwise hr l).imp₂ (fun _ _ hle hne => lt_of_le_of_ne hle hne) hne

/-- Two lists of the same elements, both strictly ascending, are the same list. -/
theorem eq_of_perm {l l' : List α} (hperm : l.Perm l')
    (hl : l.Pairwise fun a b => key a < key b) (hl' : l'.Pairwise fun a b => key a < key b) :
    l = l' :=
  hperm.eq_of_pairwise (fun _ _ _ _ hab hba => absurd hab (lt_asymm hba)) hl hl'

/-- **The order before the sort does not matter.** -/
theorem insertionSort_eq_of_perm (hr : Compares r key) {l l' : List α} (hperm : l.Perm l')
    (hnd : (l.map key).Nodup) : l.insertionSort r = l'.insertionSort r := by
  have hnd' : (l'.map key).Nodup := (hperm.map key).nodup_iff.mp hnd
  have hsorted : (l.insertionSort r).Perm (l'.insertionSort r) :=
    (List.perm_insertionSort r l).trans (hperm.trans (List.perm_insertionSort r l').symm)
  exact eq_of_perm hsorted (insertionSort_pairwise_lt hr hnd) (insertionSort_pairwise_lt hr hnd')

/-- **Sorting a part.**  The elements a filter keeps are sorted as they are in the whole. -/
theorem insertionSort_filter (hr : Compares r key) (p : α → Bool) {l : List α}
    (hnd : (l.map key).Nodup) :
    (l.filter p).insertionSort r = (l.insertionSort r).filter p := by
  have hnd' : ((l.filter p).map key).Nodup := hnd.sublist (List.filter_sublist.map key)
  have hsorted : ((l.filter p).insertionSort r).Perm ((l.insertionSort r).filter p) :=
    (List.perm_insertionSort r _).trans ((List.perm_insertionSort r l).filter p).symm
  exact eq_of_perm hsorted (insertionSort_pairwise_lt hr hnd')
    ((insertionSort_pairwise_lt hr hnd).filter p)

end KeySort
