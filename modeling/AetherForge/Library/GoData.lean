import Mathlib.Algebra.BigOperators.Group.Finset.Basic
import Mathlib.Data.Finmap
import Mathlib.Data.Rat.Defs

/-!
# Go's slices and string-keyed maps

A Go slice or map value is its contents together with whether it is `nil`: both behave as
empty when read, but they differ as values and in their JSON encoding.  A `nil` value has no
contents, which is a field of the structures, so a `nil` slice with elements cannot be built.

* `Slice` — ordered elements;
* `GoMap` — finite contents without an order, so two maps are equal when their lookups agree;
* `Err` — an `error` value through the three observations code makes of one: its text,
  `errors.Is(err, context.DeadlineExceeded)` and `errors.As` with one error type carrying a
  string.
-/

namespace Go

/-- A slice: its elements, and whether it is `nil`. -/
structure Slice (α : Type) where
  elems : List α
  isNil : Bool
  nil_elems : isNil = true → elems = []
  deriving DecidableEq

namespace Slice

variable {α β : Type}

def nil : Slice α := ⟨[], true, fun _ => rfl⟩

/-- A non-`nil` slice with the given elements. -/
def make (elems : List α) : Slice α := ⟨elems, false, nofun⟩

instance : Inhabited (Slice α) := ⟨nil⟩

def len (s : Slice α) : ℕ := s.elems.length

/-- Replace every element in place. -/
def map (f : α → β) (s : Slice α) : Slice β :=
  ⟨s.elems.map f, s.isNil, fun h => by rw [s.nil_elems h]; rfl⟩

@[simp] theorem make_elems (l : List α) : (make l).elems = l := rfl
@[simp] theorem make_isNil (l : List α) : (make l).isNil = false := rfl
@[simp] theorem map_elems (f : α → β) (s : Slice α) : (s.map f).elems = s.elems.map f := rfl

theorem ext_elems {s t : Slice α} (he : s.elems = t.elems) (hn : s.isNil = t.isNil) : s = t := by
  cases s
  cases t
  cases he
  cases hn
  rfl

/-- A slice is `nil` or made from its elements. -/
theorem eq_nil_or_make (s : Slice α) : s = nil ∨ s = make s.elems := by
  cases hn : s.isNil with
  | true => exact .inl (ext_elems (s.nil_elems hn) hn)
  | false => exact .inr (ext_elems rfl hn)

end Slice

/-- A map from strings: its contents, and whether it is `nil`. -/
structure GoMap (V : Type) where
  entries : Finmap fun _ : String => V
  isNil : Bool
  nil_entries : isNil = true → entries = ∅

namespace GoMap

variable {V : Type}

def nil : GoMap V := ⟨∅, true, fun _ => rfl⟩

/-- A non-`nil` map with the given contents. -/
def make (entries : Finmap fun _ : String => V) : GoMap V := ⟨entries, false, nofun⟩

instance : Inhabited (GoMap V) := ⟨nil⟩

/-- The value and presence of a key: `v, ok := m[k]`. -/
def get? (m : GoMap V) (k : String) : Option V := m.entries.lookup k

/-- `m[k]` with the zero value for an absent key. -/
def getD (m : GoMap V) (k : String) (zero : V) : V := (m.get? k).getD zero

/-- The keys. -/
def keys (m : GoMap V) : Finset String := m.entries.keys

/-- `len(m)`. -/
def len (m : GoMap V) : ℕ := m.keys.card

/-- `m[k] = v` on a made map. -/
def set (m : GoMap V) (k : String) (v : V) : GoMap V := make (m.entries.insert k v)

/-- The fresh copy that a loop over all entries builds. -/
def copy (m : GoMap V) : GoMap V := make m.entries

@[simp] theorem get?_make_empty (k : String) : (make ∅ : GoMap V).get? k = none := rfl

@[simp] theorem get?_set_self (m : GoMap V) (k : String) (v : V) : (m.set k v).get? k = some v := by
  simp only [set, get?, make, Finmap.lookup_insert]

theorem get?_set_of_ne (m : GoMap V) {k k' : String} (v : V) (h : k' ≠ k) :
    (m.set k v).get? k' = m.get? k' := by
  simp only [set, get?, make]
  exact Finmap.lookup_insert_of_ne _ h

theorem mem_keys_iff {m : GoMap V} {k : String} : k ∈ m.keys ↔ (m.get? k).isSome := by
  rw [keys, Finmap.mem_keys, get?, Finmap.lookup_isSome]

theorem keys_set (m : GoMap V) (k : String) (v : V) : (m.set k v).keys = insert k m.keys := by
  ext k'
  rw [Finset.mem_insert, mem_keys_iff, mem_keys_iff]
  by_cases h : k' = k
  · subst h
    simp
  · rw [get?_set_of_ne m v h]
    simp only [h, false_or]

/-- The sum of all values. -/
def total (m : GoMap ℤ) : ℤ := ∑ k ∈ m.keys, m.getD k 0

theorem total_set (m : GoMap ℤ) {k : String} (v : ℤ) (h : m.get? k = none) :
    (m.set k v).total = m.total + v := by
  have hk : k ∉ m.keys := by
    rw [mem_keys_iff, h]
    simp
  have hrest : ∑ k' ∈ m.keys, (m.set k v).getD k' 0 = m.total := by
    refine Finset.sum_congr rfl fun k' hk' => ?_
    have hne : k' ≠ k := fun heq => hk (heq ▸ hk')
    rw [getD, get?_set_of_ne m v hne, getD]
  rw [total, keys_set, Finset.sum_insert hk, hrest, getD, get?_set_self, Option.getD_some, add_comm]

end GoMap

/-- The `%q` form of a character inside a quoted string: quote, backslash and the control
characters are escaped, the rest is kept.  `%q` escapes the other characters that are not printable
too, all of them above `0x7f`; here they are kept. -/
def quoteChar (c : Char) : String :=
  if c = '"' then "\\\""
  else if c = '\\' then "\\\\"
  else if c = '\x07' then "\\a"
  else if c = '\x08' then "\\b"
  else if c = '\x0b' then "\\v"
  else if c = '\x0c' then "\\f"
  else if c = '\n' then "\\n"
  else if c = '\r' then "\\r"
  else if c = '\t' then "\\t"
  else if c.toNat < 32 ∨ c.toNat = 127 then
    "\\x" ++ String.ofList [Nat.digitChar (c.toNat / 16), Nat.digitChar (c.toNat % 16)]
  else String.singleton c

/-- `fmt.Sprintf("%q", s)`. -/
def quote (s : String) : String :=
  "\"" ++ String.join (s.toList.map quoteChar) ++ "\""

/-- An error value, through the observations made of it. -/
structure Err where
  /-- `err.Error()`. -/
  text : String
  /-- `errors.Is(err, context.DeadlineExceeded)`. -/
  deadlineExceeded : Bool
  /-- The detail that `errors.As` finds for the one error type that carries one. -/
  invalid : Option String
  deriving DecidableEq

namespace Err

/-- `errors.New(text)`. -/
def new (text : String) : Err := ⟨text, false, none⟩

/-- `fmt.Errorf(pre + "%w" + post, err)`: the text grows, what the error is does not change. -/
def wrap (pre post : String) (err : Err) : Err := { err with text := pre ++ err.text ++ post }

end Err

end Go
