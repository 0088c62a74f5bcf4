import Mathlib.Algebra.Order.Ring.Abs
import Mathlib.Data.Rat.Floor
import AetherForge.Library.Binary64
import AetherForge.Library.GoData

/-!
# Decoding JSON into Go values

What `encoding/json` does once the text has been parsed: a decoder takes a JSON value and the Go
value that the destination already holds, and gives the new one, or `none` for an error.  An
object is decoded into a struct field by field in the order of the text, so a repeated key is
decoded over the earlier value; names match exactly or else up to case folding; `null` leaves
most destinations alone and empties pointers, slices and maps; with unknown fields disallowed, a
name that matches no field is an error.

* `Decodes` — a value decodes to `a` whatever the destination held;
* `decodes_slice`, `decodeFields_cons` — the rules for round trips;
* `decodeFields_view` — a field of a decoded struct went through the values given to its name.

Numbers are integer literals or other literals, by their exact value; a `float64` is the nearest
double to it, within the range that does not overflow.
-/

namespace GoJson

open Go

/-- A parsed JSON text. -/
inductive Json
  | null
  | bool (b : Bool)
  | int (n : ℤ)
  | dec (q : ℚ)
  | str (s : String)
  | arr (elems : List Json)
  | obj (fields : List (String × Json))

/-- Decode a value into a destination. -/
abbrev Decoder (α : Type) := Json → α → Option α

/-! ### Basic types -/

def decodeBool : Decoder Bool
  | .bool b, _ => some b
  | .null, b => some b
  | _, _ => none

def decodeString : Decoder String
  | .str s, _ => some s
  | .null, s => some s
  | _, _ => none

/-- The range of `int64` and of `int`. -/
def InInt64 (n : ℤ) : Prop := -2 ^ 63 ≤ n ∧ n < 2 ^ 63

instance (n : ℤ) : Decidable (InInt64 n) := inferInstanceAs (Decidable (_ ∧ _))

/-- Only an integer literal decodes into an integer. -/
def decodeInt64 : Decoder ℤ
  | .int n, _ => if InInt64 n then some n else none
  | .null, n => some n
  | _, _ => none

/-- The finite values of `float64`. -/
def InFloat64 (q : ℚ) : Prop := Binary64.InRange q ∧ Binary64.round q = q

instance (q : ℚ) : Decidable (InFloat64 q) := inferInstanceAs (Decidable (_ ∧ _))

/-- The `float64` of a literal; a number that rounds to infinity is out of range. -/
def toFloat64 (q : ℚ) : Option ℚ := if Binary64.InRange q then some (Binary64.round q) else none

def decodeFloat64 : Decoder ℚ
  | .int n, _ => toFloat64 n
  | .dec q, _ => toFloat64 q
  | .null, q => some q
  | _, _ => none

/-! ### Pointers, slices, maps -/

section Composite

variable {α : Type} (zero : α) (d : Decoder α)

/-- A pointer, to a fresh zero value when it was `nil`. -/
def decodePointer : Decoder (Option α)
  | .null, _ => some none
  | v, p => (d v (p.getD zero)).map some

/-- The elements of an array, decoded over those the slice holds. -/
def decodeElems : List Json → List α → Option (List α)
  | [], _ => some []
  | v :: vs, held => do
    let a ← d v (held.headD zero)
    let rest ← decodeElems vs held.tail
    return a :: rest

/-- A slice.  An element that a longer array left in the backing array, past the end of the slice,
is not exposed again: there the decoding starts from zero. -/
def decodeSlice : Decoder (Slice α)
  | .null, _ => some .nil
  | .arr vs, held => (decodeElems zero d vs held.elems).map .make
  | _, _ => none

/-- The members of an object, added to those the map holds; each value is decoded afresh. -/
def decodeEntries : List (String × Json) → GoMap α → Option (GoMap α)
  | [], m => some m
  | (k, v) :: rest, m => do
    let a ← d v zero
    decodeEntries rest (m.set k a)

def decodeMap : Decoder (GoMap α)
  | .null, _ => some .nil
  | .obj members, m => decodeEntries zero d members m.copy
  | _, _ => none

end Composite

/-! ### Structs -/

/-- The folding of a character of a name: letters without their case, and the two non-ASCII
characters that fold to a letter. -/
def foldRune (c : Char) : Char :=
  if c = '\u212a' then 'k' else if c = '\u017f' then 's' else c.toLower

def foldName (s : String) : List Char := s.toList.map foldRune

/-- A struct field: its name, and the decoding of a value into it. -/
structure StructField (S : Type) where
  name : String
  decode : Decoder S

/-- A field given by its decoder and its accessors. -/
def StructField.of {S α : Type} (name : String) (d : Decoder α) (get : S → α) (set : S → α → S) :
    StructField S :=
  ⟨name, fun v s => (d v (get s)).map (set s)⟩

section Struct

variable {S : Type} (strict : Bool) (fields : List (StructField S))

/-- The field that a name in the text means. -/
def fieldNamed (k : String) : Option (StructField S) :=
  match fields.find? fun f => f.name = k with
  | some f => some f
  | none => fields.find? fun f => foldName f.name = foldName k

/-- The members of an object, decoded one after the other. -/
def decodeFields : List (String × Json) → S → Option S
  | [], s => some s
  | (k, v) :: rest, s =>
    match fieldNamed fields k with
    | some f => (f.decode v s).bind (decodeFields rest)
    | none => if strict then none else decodeFields rest s

/-- A struct; `strict` disallows unknown fields. -/
def decodeStruct : Decoder S
  | .null, s => some s
  | .obj members, s => decodeFields strict fields members s
  | _, _ => none

end Struct

/-! ### Round trips -/

/-- The value decodes to `a`, whatever the destination held. -/
def Decodes {α : Type} (d : Decoder α) (v : Json) (a : α) : Prop := ∀ held, d v held = some a

theorem decodes_string (s : String) : Decodes decodeString (.str s) s := fun _ => rfl

theorem decodes_int64 {n : ℤ} (h : InInt64 n) : Decodes decodeInt64 (.int n) n := by
  intro held
  simp only [decodeInt64, if_pos h]

/-- The literal of a `float64`: without a fraction when it is whole. -/
def encodeFloat64 (q : ℚ) : Json := if q.den = 1 then .int q.num else .dec q

theorem toFloat64_eq {q : ℚ} (h : InFloat64 q) : toFloat64 q = some q := by
  rw [toFloat64, if_pos h.1, h.2]

theorem decodes_float64 {q : ℚ} (h : InFloat64 q) :
    Decodes decodeFloat64 (encodeFloat64 q) q := by
  intro held
  rw [encodeFloat64]
  by_cases hq : q.den = 1
  · have hnum : (q.num : ℚ) = q := Rat.coe_int_num_of_den_eq_one hq
    rw [if_pos hq, decodeFloat64, hnum, toFloat64_eq h]
  · rw [if_neg hq, decodeFloat64, toFloat64_eq h]

/-- A slice, with `null` for `nil`. -/
def encodeSlice {α : Type} (encode : α → Json) (s : Slice α) : Json :=
  if s.isNil then .null else .arr (s.elems.map encode)

theorem decodeElems_map {α : Type} {zero : α} {d : Decoder α} {encode : α → Json} {l : List α}
    (h : ∀ a ∈ l, Decodes d (encode a) a) (held : List α) :
    decodeElems zero d (l.map encode) held = some l := by
  induction l generalizing held with
  | nil => rfl
  | cons a l ih =>
    obtain ⟨ha, hl⟩ := List.forall_mem_cons.mp h
    rw [List.map_cons, decodeElems, ha, ih hl]
    rfl

/-- **A slice of encoded elements decodes to itself.** -/
theorem decodes_slice {α : Type} {zero : α} {d : Decoder α} {encode : α → Json} {s : Slice α}
    (h : ∀ a ∈ s.elems, Decodes d (encode a) a) :
    Decodes (decodeSlice zero d) (encodeSlice encode s) s := by
  intro held
  rcases s.eq_nil_or_make with hs | hs
  · rw [hs]
    rfl
  · rw [hs, Slice.make_elems] at h
    rw [hs, encodeSlice, Slice.make_isNil, if_neg Bool.false_ne_true, decodeSlice, Slice.make_elems,
      decodeElems_map h]
    rfl

section StructRules

variable {S : Type} {strict : Bool} {fields : List (StructField S)}

@[simp] theorem decodeFields_nil (s : S) : decodeFields strict fields [] s = some s := rfl

/-- A member that names a field is decoded into it. -/
theorem decodeFields_cons {α : Type} {name k : String} {d : Decoder α} {get : S → α}
    {set : S → α → S} {v : Json} {a : α} {s : S}
    (hf : fieldNamed fields k = some (.of name d get set)) (hv : d v (get s) = some a)
    (rest : List (String × Json)) :
    decodeFields strict fields ((k, v) :: rest) s = decodeFields strict fields rest (set s a) := by
  simp only [decodeFields, hf, StructField.of, hv, Option.map_some, Option.bind_some]

/-- A decoded object has every member decoded in turn. -/
theorem decodeFields_cons_some {k : String} {v : Json} {rest : List (String × Json)} {s t : S}
    (h : decodeFields strict fields ((k, v) :: rest) s = some t) :
    (fieldNamed fields k = none ∧ decodeFields strict fields rest s = some t) ∨
      ∃ f s', fieldNamed fields k = some f ∧ f.decode v s = some s' ∧
        decodeFields strict fields rest s' = some t := by
  simp only [decodeFields] at h
  cases hf : fieldNamed fields k with
  | none =>
    rw [hf] at h
    cases strict with
    | true => cases h
    | false => exact .inl ⟨rfl, h⟩
  | some f =>
    rw [hf] at h
    obtain ⟨s', hd, hrest⟩ := Option.bind_eq_some_iff.mp h
    exact .inr ⟨f, s', rfl, hd, hrest⟩

end StructRules

/-! ### Repeated names -/

/-- The values that the members of an object give to a name. -/
def valuesOf (name : String) (members : List (String × Json)) : List Json :=
  (members.filter fun m => foldName m.1 = foldName name).map Prod.snd

theorem valuesOf_cons_of_eq {name k : String} (h : foldName k = foldName name) (v : Json)
    (rest : List (String × Json)) :
    valuesOf name ((k, v) :: rest) = v :: valuesOf name rest := by
  simp only [valuesOf, List.filter_cons, h, decide_true, if_true, List.map_cons]

theorem valuesOf_cons_of_ne {name k : String} (h : foldName k ≠ foldName name) (v : Json)
    (rest : List (String × Json)) :
    valuesOf name ((k, v) :: rest) = valuesOf name rest := by
  simp only [valuesOf, List.filter_cons, h, decide_false, Bool.false_eq_true, if_false]

/-- Decode values into one destination, one after the other. -/
def decodeAll {α : Type} (d : Decoder α) : List Json → α → Option α
  | [], a => some a
  | v :: vs, a => (d v a).bind (decodeAll d vs)

section View

variable {S α β : Type} {strict : Bool} {fields : List (StructField S)}

/-- The names of the fields differ by more than case. -/
def Unambiguous (fields : List (StructField S)) : Prop :=
  (fields.map fun f => foldName f.name).Nodup

instance (fields : List (StructField S)) : Decidable (Unambiguous fields) :=
  inferInstanceAs (Decidable (List.Nodup _))

theorem Unambiguous.eq_of_mem (h : Unambiguous fields) {f g : StructField S} (hf : f ∈ fields)
    (hg : g ∈ fields) (hfg : foldName f.name = foldName g.name) : f = g :=
  List.inj_on_of_nodup_map h hf hg hfg

/-- The field that a name means has the name, up to case. -/
theorem fieldNamed_some {k : String} {f : StructField S} (h : fieldNamed fields k = some f) :
    f ∈ fields ∧ foldName k = foldName f.name := by
  unfold fieldNamed at h
  split at h
  · rename_i g hg
    cases h
    have hname := List.find?_some hg
    simp only [decide_eq_true_eq] at hname
    exact ⟨List.mem_of_find?_eq_some hg, by rw [hname]⟩
  · have hname := List.find?_some h
    simp only [decide_eq_true_eq] at hname
    exact ⟨List.mem_of_find?_eq_some h, hname.symm⟩

theorem fieldNamed_of_mem (h : Unambiguous fields) {f : StructField S} (hf : f ∈ fields)
    {k : String}
    (hk : foldName k = foldName f.name) : fieldNamed fields k = some f := by
  cases hfound : fieldNamed fields k with
  | some g =>
    obtain ⟨hg, hgk⟩ := fieldNamed_some hfound
    rw [h.eq_of_mem hg hf (hgk.symm.trans hk)]
  | none =>
    unfold fieldNamed at hfound
    split at hfound
    · cases hfound
    · have hnot := List.find?_eq_none.mp hfound f hf
      simp only [decide_eq_true_eq] at hnot
      exact absurd hk.symm hnot

/-- A field that leaves an observation of the struct alone. -/
theorem StructField.of_frame {name : String} {d : Decoder α} {get : S → α} {set : S → α → S}
    {observe : S → β} (h : ∀ s a, observe (set s a) = observe s) (v : Json) (s t : S)
    (hd : (StructField.of name d get set).decode v s = some t) : observe t = observe s := by
  obtain ⟨a, _, rfl⟩ := Option.map_eq_some_iff.mp hd
  exact h s a

/-- The fields with other names leave an observation alone. -/
def Apart (name : String) (observe : S → β) (fields : List (StructField S)) : Prop :=
  ∀ f ∈ fields, foldName f.name ≠ foldName name →
    ∀ v s t, f.decode v s = some t → observe t = observe s

section Apart

variable {name : String} {observe : S → β} {d : Decoder α} {get : S → α} {set : S → α → S}

theorem Apart.nil : Apart name observe [] := fun _ hf => absurd hf List.not_mem_nil

theorem Apart.self (h : Apart name observe fields) :
    Apart name observe (.of name d get set :: fields) :=
  List.forall_mem_cons.mpr ⟨fun hne => absurd rfl hne, h⟩

theorem Apart.other {other : String} (hset : ∀ s a, observe (set s a) = observe s)
    (h : Apart name observe fields) : Apart name observe (.of other d get set :: fields) :=
  List.forall_mem_cons.mpr ⟨fun _ => StructField.of_frame hset, h⟩

end Apart

/-- **A field of a decoded struct** went through the values given to its name, in order. -/
theorem decodeFields_view {name : String} {d : Decoder α} {get : S → α} {set : S → α → S}
    (hu : Unambiguous fields) (hmem : .of name d get set ∈ fields)
    (hget : ∀ s a, get (set s a) = a) (hapart : Apart name get fields)
    {members : List (String × Json)} {s t : S}
    (h : decodeFields strict fields members s = some t) :
    decodeAll d (valuesOf name members) (get s) = some (get t) := by
  induction members generalizing s with
  | nil =>
    cases h
    rfl
  | cons m rest ih =>
    obtain ⟨k, v⟩ := m
    by_cases hk : foldName k = foldName name
    · rcases decodeFields_cons_some h with ⟨hnone, _⟩ | ⟨f, s', hf, hd, hrest⟩
      · rw [fieldNamed_of_mem hu hmem hk] at hnone
        cases hnone
      · rw [fieldNamed_of_mem hu hmem hk] at hf
        cases hf
        obtain ⟨a, ha, rfl⟩ := Option.map_eq_some_iff.mp hd
        rw [valuesOf_cons_of_eq hk, decodeAll, ha, Option.bind_some]
        have hstep := ih hrest
        rwa [hget] at hstep
    · rw [valuesOf_cons_of_ne hk]
      rcases decodeFields_cons_some h with ⟨_, hrest⟩ | ⟨f, s', hf, hd, hrest⟩
      · exact ih hrest
      · obtain ⟨hfmem, hfk⟩ := fieldNamed_some hf
        rw [← hapart f hfmem (hfk ▸ hk) v s s' hd]
        exact ih hrest

end View

/-! ### What a decoder keeps -/

/-- What is decoded into a value with the property has the property. -/
def Keeps {α : Type} (d : Decoder α) (I : α → Prop) : Prop := ∀ v a b, I a → d v a = some b → I b

theorem keeps_int64 : Keeps decodeInt64 InInt64 := by
  intro v a b ha h
  cases v with
  | int n =>
    obtain ⟨hn, heq⟩ := Option.ite_none_right_eq_some.mp h
    cases heq
    exact hn
  | null =>
    cases h
    exact ha
  | bool | dec | str | arr | obj => cases h

theorem inFloat64_of_toFloat64 {q r : ℚ} (h : toFloat64 q = some r) : InFloat64 r := by
  obtain ⟨hq, heq⟩ := Option.ite_none_right_eq_some.mp h
  cases heq
  exact ⟨Binary64.inRange_round hq, Binary64.round_round q⟩

theorem keeps_float64 : Keeps decodeFloat64 InFloat64 := by
  intro v a b ha h
  cases v with
  | int | dec => exact inFloat64_of_toFloat64 h
  | null =>
    cases h
    exact ha
  | bool | str | arr | obj => cases h

section Kept

variable {α S : Type} {zero : α} {d : Decoder α} {I : α → Prop}

theorem keeps_elems (hzero : I zero) (h : Keeps d I) {vs : List Json} {held as : List α}
    (hheld : ∀ a ∈ held, I a) (hdecode : decodeElems zero d vs held = some as) :
    ∀ a ∈ as, I a := by
  induction vs generalizing held as with
  | nil =>
    cases hdecode
    exact fun _ ha => nomatch ha
  | cons v vs ih =>
    simp only [decodeElems, Option.bind_eq_bind, Option.bind_eq_some_iff, Option.pure_def]
      at hdecode
    obtain ⟨a, ha, rest, hrest, heq⟩ := hdecode
    cases heq
    refine List.forall_mem_cons.mpr ⟨h v _ a ?_ ha, ih ?_ hrest⟩
    · cases held with
      | nil => exact hzero
      | cons b held => exact hheld b List.mem_cons_self
    · exact fun b hb => hheld b (List.mem_of_mem_tail hb)

/-- What an array is decoded to comes from its elements. -/
theorem exists_of_mem_decodeElems {vs : List Json} {held as : List α}
    (h : decodeElems zero d vs held = some as) : ∀ a ∈ as, ∃ v ∈ vs, ∃ b, d v b = some a := by
  induction vs generalizing held as with
  | nil =>
    cases h
    exact fun _ ha => nomatch ha
  | cons v vs ih =>
    simp only [decodeElems, Option.bind_eq_bind, Option.bind_eq_some_iff, Option.pure_def] at h
    obtain ⟨a, ha, rest, hrest, heq⟩ := h
    cases heq
    refine List.forall_mem_cons.mpr ⟨⟨v, List.mem_cons_self, _, ha⟩, fun b hb => ?_⟩
    obtain ⟨w, hw, hdecode⟩ := ih hrest b hb
    exact ⟨w, .tail _ hw, hdecode⟩

/-- Values that are decoded one after the other leave what the last one is decoded to. -/
theorem decodeAll_last {vs : List Json} {a b : α} (h : ∀ v ∈ vs, ∀ a b, d v a = some b → I b)
    (hne : vs ≠ []) (hdecode : decodeAll d vs a = some b) : I b := by
  induction vs generalizing a with
  | nil => exact absurd rfl hne
  | cons v vs ih =>
    obtain ⟨a', ha', hrest⟩ := Option.bind_eq_some_iff.mp hdecode
    cases vs with
    | nil =>
      cases hrest
      exact h v List.mem_cons_self a _ ha'
    | cons w ws => exact ih (fun u hu => h u (.tail _ hu)) (List.cons_ne_nil w ws) hrest

/-- **A slice** of values with the property. -/
theorem keeps_slice (hzero : I zero) (h : Keeps d I) :
    Keeps (decodeSlice zero d) fun s => ∀ a ∈ s.elems, I a := by
  intro v s t hs hdecode
  cases v with
  | null =>
    cases hdecode
    exact fun _ ha => nomatch ha
  | arr vs =>
    obtain ⟨as, has, rfl⟩ := Option.map_eq_some_iff.mp hdecode
    exact keeps_elems hzero h hs has
  | bool | int | dec | str | obj => cases hdecode

/-- A field whose decoder keeps what the property asks of it. -/
theorem keeps_field {J : S → Prop} {name : String} {get : S → α} {set : S → α → S}
    (h : Keeps d I) (hget : ∀ s, J s → I (get s)) (hset : ∀ s a, J s → I a → J (set s a)) :
    Keeps (StructField.of name d get set).decode J := by
  intro v s t hs hdecode
  obtain ⟨a, ha, rfl⟩ := Option.map_eq_some_iff.mp hdecode
  exact hset s a hs (h v (get s) a (hget s hs) ha)

/-- **A struct** whose fields keep the property. -/
theorem keeps_struct {J : S → Prop} {strict : Bool} {fields : List (StructField S)}
    (h : ∀ f ∈ fields, Keeps f.decode J) : Keeps (decodeStruct strict fields) J := by
  have hfields : ∀ members s t, J s → decodeFields strict fields members s = some t → J t := by
    intro members
    induction members with
    | nil =>
      intro s t hs hdecode
      cases hdecode
      exact hs
    | cons m members ih =>
      intro s t hs hdecode
      rcases decodeFields_cons_some hdecode with ⟨-, hrest⟩ | ⟨f, s', hf, hd, hrest⟩
      · exact ih s t hs hrest
      · exact ih s' t (h f (fieldNamed_some hf).1 _ s s' hs hd) hrest
  intro v s t hs hdecode
  cases v with
  | null =>
    cases hdecode
    exact hs
  | obj members => exact hfields members s t hs hdecode
  | bool | int | dec | str | arr => cases hdecode

end Kept

end GoJson
