import Mathlib.Data.List.Forall2
import AetherForge.Library.JsonReading

/-!
# Printing JSON values

The text that `json.Marshal` writes for a value: no spaces, a string with its quotation marks,
backslashes, control characters and the characters `<`, `>`, `&`, U+2028 and U+2029 escaped.  How a
number that is no integer is written is a parameter, of which only the literals' own values are
asked.

* `unquote_escape` — a string's text is unquoted to the string;
* `spells_printValue` — what is printed is a text of the value;
* `parseText_printValue` — and is parsed back to it.
-/

namespace GoJson

/-! ### Texts -/

/-- The decimal digits of a number. -/
def natText (n : ℕ) : Bytes := (Nat.toDigits 10 n).map fun c => c.toNat.toUInt8

def intText (n : ℤ) : Bytes := if n < 0 then minusSign :: natText n.natAbs else natText n.natAbs

def hexDigit (n : ℕ) : UInt8 := if n < 10 then (0x30 + n).toUInt8 else (0x57 + n).toUInt8

def hexText (n : ℕ) : Bytes :=
  [hexDigit (n / 4096), hexDigit (n / 256 % 16), hexDigit (n / 16 % 16), hexDigit (n % 16)]

/-- The escape of a character below U+10000 by its number. -/
def unicodeEscape (n : ℕ) : Bytes := backslash :: 0x75 :: hexText n

/-- The characters that are escaped by a letter or by themselves. -/
def shortEscapes : List (Char × UInt8) :=
  [('"', 0x22), ('\\', 0x5c), ('\x08', 0x62), ('\x0c', 0x66), ('\n', 0x6e), ('\r', 0x72),
    ('\t', 0x74)]

/-- The other characters that are escaped. -/
def isEscaped (c : Char) : Bool :=
  c.toNat < 0x20 || c = '<' || c = '>' || c = '&' || c.toNat = 0x2028 || c.toNat = 0x2029

def escapeChar (c : Char) : Bytes :=
  match shortEscapes.find? fun p => p.1 = c with
  | some p => [backslash, p.2]
  | none => if isEscaped c then unicodeEscape c.toNat else String.utf8EncodeChar c

def stringText (s : String) : Bytes :=
  quotationMark :: (s.toList.flatMap escapeChar ++ [quotationMark])

/-- Texts with commas between them. -/
def separated : List Bytes → Bytes
  | [] => []
  | [t] => t
  | t :: ts => t ++ comma :: separated ts

section Printing

variable (decimal : ℚ → Bytes)

mutual

/-- The text of a value. -/
def printValue : Json → Bytes
  | .null => ascii "null"
  | .bool b => if b then ascii "true" else ascii "false"
  | .int n => intText n
  | .dec q => decimal q
  | .str s => stringText s
  | .arr vs => openBracket :: (separated (printElems vs) ++ [closeBracket])
  | .obj members => openBrace :: (separated (printMembers members) ++ [closeBrace])

def printElems : List Json → List Bytes
  | [] => []
  | v :: vs => printValue v :: printElems vs

def printMembers : List (String × Json) → List Bytes
  | [] => []
  | (k, v) :: members => (stringText k ++ colon :: printValue v) :: printMembers members

end

/-- The literal that is written for a number has the number as its value. -/
def Writes (q : ℚ) : Prop := ∃ x : Numeral, x.Wf ∧ x.text = decimal q ∧ x.value = .dec q

/-- A value that nests to a depth, its numbers written as literals. -/
def Printable : ℕ → Json → Prop
  | _, .null => True
  | _, .bool _ => True
  | _, .int _ => True
  | _, .dec q => Writes decimal q
  | _, .str _ => True
  | 0, .arr _ => False
  | 0, .obj _ => False
  | d + 1, .arr vs => ∀ v ∈ vs, Printable d v
  | d + 1, .obj members => ∀ m ∈ members, Printable d m.2

end Printing

/-! ### Integers -/

theorem digitByte_spec {n : ℕ} (h : n < 10) :
    isDigit (Nat.digitChar n).toNat.toUInt8 = true ∧
      (Nat.digitChar n).toNat.toUInt8.toNat = 48 + n := by
  revert n
  decide

theorem natText_of_lt {n : ℕ} (h : n < 10) : natText n = [(Nat.digitChar n).toNat.toUInt8] := by
  rw [natText, Nat.toDigits_of_lt_base h]
  rfl

theorem natText_of_le {n : ℕ} (h : 10 ≤ n) :
    natText n = natText (n / 10) ++ [(Nat.digitChar (n % 10)).toNat.toUInt8] := by
  rw [natText, Nat.toDigits_of_base_le (by decide) h, List.map_append]
  rfl

theorem natOf_append_singleton (ds : Bytes) (b : UInt8) :
    natOf (ds ++ [b]) = 10 * natOf ds + (b.toNat - 48) := by
  rw [natOf, List.foldl_append]
  rfl

theorem natText_digits (n : ℕ) : ∀ b ∈ natText n, isDigit b = true := by
  induction n using Nat.strong_induction_on with
  | _ n ih =>
    by_cases h : n < 10
    · rw [natText_of_lt h]
      intro b hb
      rw [List.mem_singleton.mp hb]
      exact (digitByte_spec h).1
    · rw [natText_of_le (Nat.not_lt.mp h)]
      intro b hb
      rcases List.mem_append.mp hb with hb | hb
      · exact ih (n / 10) (by omega) b hb
      · rw [List.mem_singleton.mp hb]
        exact (digitByte_spec (Nat.mod_lt n (by decide))).1

theorem natOf_natText (n : ℕ) : natOf (natText n) = n := by
  induction n using Nat.strong_induction_on with
  | _ n ih =>
    by_cases h : n < 10
    · rw [natText_of_lt h]
      show 10 * 0 + ((Nat.digitChar n).toNat.toUInt8.toNat - 48) = n
      rw [(digitByte_spec h).2]
      omega
    · rw [natText_of_le (Nat.not_lt.mp h), natOf_append_singleton, ih (n / 10) (by omega),
        (digitByte_spec (Nat.mod_lt n (by decide))).2]
      omega

/-- No number but zero begins with a zero. -/
theorem natText_lead (n : ℕ) :
    natText n = [zeroDigit] ∨ (natText n ≠ [] ∧ (natText n).head? ≠ some zeroDigit) := by
  induction n using Nat.strong_induction_on with
  | _ n ih =>
    by_cases h : n < 10
    · rw [natText_of_lt h]
      clear ih
      revert n
      decide
    · have hle := Nat.not_lt.mp h
      have hlead := ih (n / 10) (by omega)
      have hzero : natText (n / 10) ≠ [zeroDigit] := by
        intro heq
        have := natOf_natText (n / 10)
        rw [heq] at this
        have hnat : natOf [zeroDigit] = 0 := rfl
        omega
      obtain ⟨hne, hhead⟩ := hlead.resolve_left hzero
      rw [natText_of_le hle]
      refine .inr ⟨List.append_ne_nil_of_left_ne_nil hne _, ?_⟩
      rwa [List.head?_append_of_ne_nil _ hne]

/-- The literal of an integer. -/
def intNumeral (n : ℤ) : Numeral := ⟨decide (n < 0), natText n.natAbs, [], none⟩

theorem intNumeral_wf (n : ℤ) : (intNumeral n).Wf where
  whole := natText_lead n.natAbs
  whole_digits := natText_digits n.natAbs
  fraction := nofun
  exponent := nofun

theorem intNumeral_text (n : ℤ) : (intNumeral n).text = intText n := by
  rw [intText]
  by_cases h : n < 0
  · simp [intNumeral, Numeral.text, Numeral.signText, Numeral.fractionText, Numeral.exponentText,
      markedDigits, h]
  · simp [intNumeral, Numeral.text, Numeral.signText, Numeral.fractionText, Numeral.exponentText,
      markedDigits, h]

theorem intNumeral_value (n : ℤ) : (intNumeral n).value = .int n := by
  have hmantissa : (intNumeral n).mantissa = n := by
    simp only [Numeral.mantissa, intNumeral, List.append_nil, natOf_natText, decide_eq_true_eq]
    split <;> omega
  rw [Numeral.value, if_pos ⟨rfl, rfl⟩, hmantissa]

theorem spells_intText (n : ℤ) : SpellsScalar (.int n) (intText n) := by
  rw [← intNumeral_value, ← intNumeral_text]
  exact .number (intNumeral_wf n)

/-! ### Strings -/

theorem hexDigit_spec {n : ℕ} (h : n < 16) :
    isHexDigit (hexDigit n) = true ∧ hexValue (hexDigit n) = n := by
  revert n
  decide

/-- The bytes of a character are the character itself, or none of them is ASCII. -/
theorem mem_utf8EncodeChar {c : Char} {b : UInt8} (h : b ∈ String.utf8EncodeChar c) :
    (b.toNat = c.toNat ∧ c.toNat < 0x80) ∨ 0x80 ≤ b.toNat := by
  have hval : c.val.toNat = c.toNat := rfl
  unfold String.utf8EncodeChar at h
  simp only [hval] at h
  split at h
  · rw [List.mem_singleton.mp h]
    refine .inl ⟨?_, by omega⟩
    rw [UInt8.toNat_ofNat']
    omega
  · refine .inr ?_
    have hbyte : ∃ k, 0x80 ≤ k ∧ k < 0x100 ∧ b = UInt8.ofNat k := by
      split at h
      · simp only [List.mem_cons, List.not_mem_nil, or_false] at h
        rcases h with h | h
        all_goals exact ⟨_, by omega, by omega, h⟩
      split at h
      · simp only [List.mem_cons, List.not_mem_nil, or_false] at h
        rcases h with h | h | h
        all_goals exact ⟨_, by omega, by omega, h⟩
      · simp only [List.mem_cons, List.not_mem_nil, or_false] at h
        rcases h with h | h | h | h
        all_goals exact ⟨_, by omega, by omega, h⟩
    obtain ⟨k, hlow, hhigh, rfl⟩ := hbyte
    rw [UInt8.toNat_ofNat']
    omega

/-- The escape of a character, backwards. -/
theorem escapeChar_cases (c : Char) :
    (∃ b, (c, b) ∈ shortEscapes ∧ escapeChar c = [backslash, b]) ∨
      (c.toNat < 0xd800 ∧ escapeChar c = unicodeEscape c.toNat) ∨
      (c ≠ '"' ∧ c ≠ '\\' ∧ 0x20 ≤ c.toNat ∧ escapeChar c = String.utf8EncodeChar c) := by
  cases hfind : shortEscapes.find? fun p => p.1 = c with
  | some p =>
    obtain ⟨c', b⟩ := p
    have hname := List.find?_some hfind
    simp only [decide_eq_true_eq] at hname
    subst hname
    exact .inl ⟨b, List.mem_of_find?_eq_some hfind, by rw [escapeChar, hfind]⟩
  | none =>
    have hnot := List.find?_eq_none.mp hfind
    simp only [decide_eq_true_eq] at hnot
    have hquote : c ≠ '"' := fun h => hnot ('"', 0x22) (by decide) h.symm
    have hslash : c ≠ '\\' := fun h => hnot ('\\', 0x5c) (by decide) h.symm
    by_cases hescaped : isEscaped c = true
    · refine .inr (.inl ⟨?_, by rw [escapeChar, hfind]; exact if_pos hescaped⟩)
      simp only [isEscaped, Bool.or_eq_true, decide_eq_true_eq] at hescaped
      rcases hescaped with ((((h | rfl) | rfl) | rfl) | h) | h
      · omega
      · decide
      · decide
      · decide
      · omega
      · omega
    · refine .inr (.inr ⟨hquote, hslash, ?_, by rw [escapeChar, hfind]; exact if_neg hescaped⟩)
      simp only [isEscaped, Bool.or_eq_true, decide_eq_true_eq, not_or, Nat.not_lt] at hescaped
      exact hescaped.1.1.1.1.1

theorem hexText_spec {n : ℕ} (h : n < 0xd800) :
    (∀ b ∈ hexText n, isHexDigit b = true) ∧ hexOf (hexText n) = n := by
  obtain ⟨h₁, v₁⟩ := hexDigit_spec (show n / 4096 < 16 by omega)
  obtain ⟨h₂, v₂⟩ := hexDigit_spec (show n / 256 % 16 < 16 by omega)
  obtain ⟨h₃, v₃⟩ := hexDigit_spec (show n / 16 % 16 < 16 by omega)
  obtain ⟨h₄, v₄⟩ := hexDigit_spec (show n % 16 < 16 by omega)
  constructor
  · simp only [hexText, List.forall_mem_cons]
    exact ⟨h₁, h₂, h₃, h₄, nofun⟩
  · simp only [hexOf, hexText, List.foldl_cons, List.foldl_nil, v₁, v₂, v₃, v₄]
    omega

theorem unquoteUnicode_append {n : ℕ} (h : n < 0xd800) (rest : Bytes) :
    unquoteUnicode (hexText n ++ rest) = (Char.ofNat n, rest) := by
  have htake : (hexText n ++ rest).take 4 = hexText n := List.take_left' rfl
  have hdrop : (hexText n ++ rest).drop 4 = rest := List.drop_left' rfl
  have hsurrogate : ¬(0xd800 ≤ n ∧ n < 0xe000) := by omega
  simp only [unquoteUnicode, htake, hdrop, (hexText_spec h).2, if_neg hsurrogate]

theorem decodeRune_append (c : Char) (rest : Bytes) :
    decodeRune (String.utf8EncodeChar c ++ rest) = (c, rest) := by
  rw [decodeRune, List.toByteArray_append, ByteArray.utf8DecodeChar?_utf8EncodeChar_append]
  simp only [List.drop_left' (String.length_utf8EncodeChar c)]

theorem unquoteChar_unicode (bs : Bytes) :
    unquoteChar (backslash :: 0x75 :: bs) = unquoteUnicode bs :=
  (if_pos rfl).trans (if_pos rfl)

theorem unquoteChar_escape {c : UInt8} (h : c ≠ 0x75) (bs : Bytes) :
    unquoteChar (backslash :: c :: bs) = (unescape c, bs) :=
  (if_pos rfl).trans (if_neg fun heq => h (Option.some.inj heq))

theorem utf8EncodeChar_ne_nil (c : Char) : String.utf8EncodeChar c ≠ [] := by
  intro h
  have hlength := String.length_utf8EncodeChar c
  rw [h] at hlength
  exact Nat.ne_of_lt (Char.utf8Size_pos c) hlength

/-- **An escaped character is unquoted.** -/
theorem unquoteChar_escapeChar (c : Char) (rest : Bytes) :
    unquoteChar (escapeChar c ++ rest) = (c, rest) := by
  rcases escapeChar_cases c with ⟨b, hb, heq⟩ | ⟨hn, heq⟩ | ⟨hquote, hslash, hlow, heq⟩
  · have hspec : ∀ p ∈ shortEscapes, unescape p.2 = p.1 ∧ p.2 ≠ 0x75 := by decide
    obtain ⟨hunescape, hne⟩ := hspec _ hb
    rw [heq]
    exact (unquoteChar_escape hne rest).trans (by rw [hunescape])
  · rw [heq]
    refine (unquoteChar_unicode (hexText c.toNat ++ rest)).trans ?_
    rw [unquoteUnicode_append hn, Char.ofNat_toNat]
  · have hhead : (String.utf8EncodeChar c ++ rest).head? ≠ some backslash := by
      rw [List.head?_append_of_ne_nil _ (utf8EncodeChar_ne_nil c)]
      intro h
      rcases mem_utf8EncodeChar (List.mem_of_head? h) with ⟨h, -⟩ | h
      · exact hslash (Char.toNat_inj.mp h.symm)
      · exact absurd h (by decide)
    rw [heq, unquoteChar, if_neg hhead]
    exact decodeRune_append c rest

theorem escapeChar_ne_nil (c : Char) : escapeChar c ≠ [] := by
  rcases escapeChar_cases c with ⟨b, -, heq⟩ | ⟨-, heq⟩ | ⟨-, -, -, heq⟩
  · rw [heq]
    exact List.cons_ne_nil _ _
  · rw [heq]
    exact List.cons_ne_nil _ _
  · rw [heq]
    exact utf8EncodeChar_ne_nil c

theorem unquoteChars_escape (cs : List Char) {n : ℕ} (hn : (cs.flatMap escapeChar).length ≤ n) :
    unquoteChars n (cs.flatMap escapeChar) = cs := by
  induction cs generalizing n with
  | nil => cases n <;> rfl
  | cons c cs ih =>
    rw [List.flatMap_cons] at hn ⊢
    have hread := unquoteChar_escapeChar c (cs.flatMap escapeChar)
    have hpos : 0 < (escapeChar c).length := List.length_pos_iff.mpr (escapeChar_ne_nil c)
    rw [List.length_append] at hn
    obtain ⟨n, rfl⟩ : ∃ k, n = k + 1 := ⟨n - 1, by omega⟩
    cases htext : escapeChar c ++ cs.flatMap escapeChar with
    | nil => exact absurd (List.append_eq_nil_iff.mp htext).1 (escapeChar_ne_nil c)
    | cons b bs =>
      rw [htext] at hread
      rw [unquoteChars, hread, ih (by omega)]

/-- **A string's text is unquoted to the string.** -/
theorem unquote_escape (s : String) : unquote (s.toList.flatMap escapeChar) = s := by
  rw [unquote, unquoteChars_escape _ le_rfl, String.ofList_toList]

theorem stringBody_escapeChar (c : Char) {rest : Bytes} (h : StringBody rest) :
    StringBody (escapeChar c ++ rest) := by
  rcases escapeChar_cases c with ⟨b, hb, heq⟩ | ⟨hn, heq⟩ | ⟨hquote, hslash, hlow, heq⟩
  · have hspec : ∀ p ∈ shortEscapes, p.2 ∈ escapes := by decide
    rw [heq]
    exact .escape (hspec _ hb) h
  · rw [heq]
    exact .unicode rfl (hexText_spec hn).1 h
  · have hplain : ∀ bs : Bytes, (∀ b ∈ bs, b ∈ String.utf8EncodeChar c) →
        StringBody (bs ++ rest) := by
      intro bs hbs
      induction bs with
      | nil => exact h
      | cons b bs ih =>
        rw [List.forall_mem_cons] at hbs
        refine .plain ?_ ?_ ?_ (ih hbs.2)
        · rintro rfl
          rcases mem_utf8EncodeChar hbs.1 with ⟨h, -⟩ | h
          · exact hquote (Char.toNat_inj.mp h.symm)
          · exact absurd h (by decide)
        · rintro rfl
          rcases mem_utf8EncodeChar hbs.1 with ⟨h, -⟩ | h
          · exact hslash (Char.toNat_inj.mp h.symm)
          · exact absurd h (by decide)
        · rw [UInt8.le_iff_toNat_le]
          show 0x20 ≤ b.toNat
          rcases mem_utf8EncodeChar hbs.1 with ⟨h, -⟩ | h <;> omega
    rw [heq]
    exact hplain _ fun _ hb => hb

theorem spells_stringText (s : String) : SpellsString s (stringText s) := by
  have hbody : ∀ cs : List Char, StringBody (cs.flatMap escapeChar) := by
    intro cs
    induction cs with
    | nil => exact .nil
    | cons c cs ih => exact stringBody_escapeChar c ih
  exact ⟨_, hbody s.toList, (unquote_escape s).symm, rfl⟩

/-! ### Values -/

theorem spaces_nil : Spaces [] := nofun

/-- Texts of items with commas between them are a list of the items. -/
theorem listed_separated {α : Type} {R : α → Bytes → Prop} {as : List α} {ts : List Bytes}
    (h : List.Forall₂ R as ts) : Listed R as (separated ts) := by
  have hitems : as ≠ [] → Items R as (separated ts) := by
    induction h with
    | nil => exact fun hne => absurd rfl hne
    | @cons a t as ts ha has ih =>
      intro _
      cases has with
      | nil =>
        have hlast := Items.last spaces_nil ha spaces_nil
        rwa [List.nil_append, List.append_nil] at hlast
      | cons _ _ =>
        have hcons := Items.cons spaces_nil ha spaces_nil (ih (List.cons_ne_nil _ _))
        rwa [List.nil_append, List.append_nil] at hcons
  cases h with
  | nil => exact .none spaces_nil
  | cons ha has => exact .some (hitems (List.cons_ne_nil _ _))

section Printing

variable {decimal : ℚ → Bytes}

theorem printElems_eq (vs : List Json) : printElems decimal vs = vs.map (printValue decimal) := by
  induction vs with
  | nil => rw [printElems, List.map_nil]
  | cons v vs ih => rw [printElems, ih, List.map_cons]

theorem printMembers_eq (members : List (String × Json)) :
    printMembers decimal members =
      members.map fun m => stringText m.1 ++ colon :: printValue decimal m.2 := by
  induction members with
  | nil => rw [printMembers, List.map_nil]
  | cons m members ih =>
    obtain ⟨k, v⟩ := m
    rw [printMembers, ih, List.map_cons]

/-- A value without parts. -/
theorem spells_printScalar {v : Json} (h : Printable decimal 0 v) :
    SpellsScalar v (printValue decimal v) := by
  cases v with
  | null => exact .null
  | bool b =>
    cases b
    · exact .false
    · exact .true
  | int n => exact spells_intText n
  | dec q =>
    obtain ⟨x, hx, htext, hvalue⟩ := h
    rw [printValue, ← htext, ← hvalue]
    exact .number hx
  | str s => exact .str (spells_stringText s)
  | arr vs => exact h.elim
  | obj members => exact h.elim

/-- **What is printed is a text of the value.** -/
theorem spells_printValue {d : ℕ} {v : Json} (h : Printable decimal d v) :
    Spells d v (printValue decimal v) := by
  induction d generalizing v with
  | zero => exact spells_printScalar h
  | succ d ih =>
    cases v with
    | arr vs =>
      refine .inr (.inl ⟨vs, _, rfl, ?_, by rw [printValue]⟩)
      rw [printElems_eq]
      refine listed_separated (List.forall₂_map_right_iff.mpr (List.forall₂_same.mpr ?_))
      exact fun v hv => ih (h v hv)
    | obj members =>
      refine .inr (.inr ⟨members, _, rfl, ?_, by rw [printValue]⟩)
      rw [printMembers_eq]
      refine listed_separated (List.forall₂_map_right_iff.mpr (List.forall₂_same.mpr ?_))
      intro m hm
      refine ⟨stringText m.1, [], [], printValue decimal m.2, spells_stringText m.1, spaces_nil,
        spaces_nil, ih (h m hm), ?_⟩
      rw [List.append_nil, List.nil_append]
    | null | bool | int | dec | str => exact .inl (spells_printScalar h)

theorem Printable.succ {d : ℕ} {v : Json} (h : Printable decimal d v) :
    Printable decimal (d + 1) v := by
  induction d generalizing v with
  | zero =>
    cases v with
    | arr vs => exact h.elim
    | obj members => exact h.elim
    | null | bool | int | dec | str => exact h
  | succ d ih =>
    cases v with
    | arr vs => exact fun v hv => ih (h v hv)
    | obj members => exact fun m hm => ih (h m hm)
    | null | bool | int | dec | str => exact h

theorem Printable.mono {d d' : ℕ} {v : Json} (h : Printable decimal d v) (hd : d ≤ d') :
    Printable decimal d' v := by
  induction hd with
  | refl => exact h
  | step _ ih => exact ih.succ

theorem printable_slice {α : Type} {d : ℕ} {encode : α → Json} {s : Go.Slice α}
    (h : ∀ a ∈ s.elems, Printable decimal d (encode a)) :
    Printable decimal (d + 1) (encodeSlice encode s) := by
  rw [encodeSlice]
  split
  · trivial
  · intro v hv
    obtain ⟨a, ha, rfl⟩ := List.mem_map.mp hv
    exact h a ha

/-- **What is printed is parsed back.** -/
theorem parseText_printValue {v : Json} (h : Printable decimal maxNestingDepth v) :
    parseText (printValue decimal v) = some v := by
  refine (parseText_iff _ _).mpr ⟨[], _, [], spaces_nil, spells_printValue h, spaces_nil, ?_⟩
  rw [List.nil_append, List.append_nil]

end Printing

end GoJson
