import Mathlib.Data.List.Basic
import Mathlib.Data.List.TakeWhile
import AetherForge.Library.JsonText

/-!
# The reader and the grammar of JSON texts

Each reader takes a text of its grammar off the front, and nothing else.

* `Reads` — what that means for one reader and one grammar;
* `readNumeral_some`, `readNumeral_append` — numbers;
* `reads_string`, `reads_member`, `reads_value` — strings, members and values;
* `parseText_iff` — a whole text is parsed when it is a value's text between spaces.
-/

namespace GoJson

/-! ### Runs of bytes -/

theorem skipSpace_eq (bs : Bytes) : ∃ u, Spaces u ∧ bs = u ++ skipSpace bs :=
  ⟨bs.takeWhile isSpace, fun _ hb => List.mem_takeWhile_imp hb,
    (List.takeWhile_append_dropWhile).symm⟩

theorem dropWhile_append_of_all {p : UInt8 → Bool} {u t : Bytes} (hu : ∀ b ∈ u, p b = true)
    (ht : ∀ b, t.head? = some b → p b = false) : (u ++ t).dropWhile p = t := by
  rw [List.dropWhile_append_of_pos hu]
  cases t with
  | nil => rfl
  | cons b t => exact List.dropWhile_cons_of_neg (by simp [ht b rfl])

theorem takeWhile_append_of_all {p : UInt8 → Bool} {u t : Bytes} (hu : ∀ b ∈ u, p b = true)
    (ht : ∀ b, t.head? = some b → p b = false) : (u ++ t).takeWhile p = u := by
  rw [List.takeWhile_append_of_pos hu]
  cases t with
  | nil => simp
  | cons b t => rw [List.takeWhile_cons_of_neg (by simp [ht b rfl]), List.append_nil]

/-- No space begins the text. -/
def Unspaced (t : Bytes) : Prop := ∀ b, t.head? = some b → isSpace b = false

theorem skipSpace_append {u t : Bytes} (hu : Spaces u) (ht : Unspaced t) :
    skipSpace (u ++ t) = t :=
  dropWhile_append_of_all hu ht

/-- What can follow a value: the end, a space, a comma or a closing bracket. -/
def Delimits (rest : Bytes) : Prop :=
  ∀ b, rest.head? = some b → isSpace b = true ∨ b = comma ∨ b = closeBracket ∨ b = closeBrace

theorem delimits_nil : Delimits [] := nofun

theorem delimits_cons {b : UInt8} (rest : Bytes)
    (h : isSpace b = true ∨ b = comma ∨ b = closeBracket ∨ b = closeBrace) :
    Delimits (b :: rest) := by
  intro b' hb'
  obtain rfl : b = b' := Option.some.inj hb'
  exact h

/-- Spaces can follow a value when what comes after them can. -/
theorem delimits_append {u rest : Bytes} (hu : Spaces u) (hrest : Delimits rest) :
    Delimits (u ++ rest) := by
  cases u with
  | nil => exact hrest
  | cons b u => exact delimits_cons _ (.inl (hu b List.mem_cons_self))

/-- What cannot continue a number. -/
def StopsNumber (rest : Bytes) : Prop :=
  ∀ b, rest.head? = some b → isDigit b = false ∧ b ≠ fullStop ∧ b ≠ 0x65 ∧ b ≠ 0x45

theorem Delimits.stopsNumber {rest : Bytes} (h : Delimits rest) : StopsNumber rest := by
  intro b hb
  have hcases : b ∈ ([0x20, 0x09, 0x0a, 0x0d, comma, closeBracket, closeBrace] : Bytes) := by
    rcases h b hb with hspace | rfl | rfl | rfl
    · simp only [isSpace, Bool.or_eq_true, decide_eq_true_eq] at hspace
      rcases hspace with ((rfl | rfl) | rfl) | rfl <;> decide
    all_goals decide
  simp only [List.mem_cons, List.not_mem_nil, or_false] at hcases
  rcases hcases with rfl | rfl | rfl | rfl | rfl | rfl | rfl <;> decide

/-- The first byte of a value: no space, and no closing bracket. -/
def Opens (t : Bytes) : Prop :=
  ∃ b, t.head? = some b ∧ isSpace b = false ∧ b ≠ closeBracket ∧ b ≠ closeBrace

theorem Opens.unspaced {t : Bytes} (h : Opens t) (rest : Bytes) : Unspaced (t ++ rest) := by
  obtain ⟨b, hb, hspace, -⟩ := h
  intro b' hb'
  rw [List.head?_append, hb] at hb'
  obtain rfl : b = b' := Option.some.inj hb'
  exact hspace

/-- The reader takes the texts of a relation off the front, and nothing else. -/
structure Reads {α : Type} (read : Reader α) (R : α → Bytes → Prop) : Prop where
  sound : ∀ {bs a rest}, read bs = some (a, rest) → ∃ t, bs = t ++ rest ∧ R a t
  complete : ∀ {a t}, R a t → ∀ rest, Delimits rest → read (t ++ rest) = some (a, rest)
  opens : ∀ {a t}, R a t → Opens t

/-! ### Reading numbers -/

theorem readSign_eq (bs : Bytes) :
    bs = (if (readSign bs).1 then [minusSign] else []) ++ (readSign bs).2 := by
  cases bs with
  | nil => rfl
  | cons b bs =>
    by_cases hb : b = minusSign
    · rw [readSign, if_pos hb, hb]
      rfl
    · rw [readSign, if_neg hb]
      rfl

theorem readDigits_some {bs ds rest : Bytes} (h : readDigits bs = some (ds, rest)) :
    bs = ds ++ rest ∧ ds ≠ [] ∧ ∀ b ∈ ds, isDigit b = true := by
  rw [readDigits] at h
  split at h
  · cases h
  · rename_i hne
    cases h
    exact ⟨List.takeWhile_append_dropWhile.symm, hne, fun b hb => List.mem_takeWhile_imp hb⟩

theorem readDigits_append {ds rest : Bytes} (hne : ds ≠ []) (hds : ∀ b ∈ ds, isDigit b = true)
    (hrest : ∀ b, rest.head? = some b → isDigit b = false) :
    readDigits (ds ++ rest) = some (ds, rest) := by
  rw [readDigits, takeWhile_append_of_all hds hrest, dropWhile_append_of_all hds hrest, if_neg hne]

theorem readWhole_some {bs ds rest : Bytes} (h : readWhole bs = some (ds, rest)) :
    bs = ds ++ rest ∧ (ds = [zeroDigit] ∨ (ds ≠ [] ∧ ds.head? ≠ some zeroDigit)) ∧
      ∀ b ∈ ds, isDigit b = true := by
  rw [readWhole] at h
  split at h
  · rename_i hzero
    cases h
    refine ⟨(List.cons_head?_tail hzero).symm, .inl rfl, ?_⟩
    intro b hb
    rw [List.mem_singleton.mp hb]
    rfl
  · rename_i hzero
    obtain ⟨rfl, hne, hds⟩ := readDigits_some h
    refine ⟨rfl, .inr ⟨hne, ?_⟩, hds⟩
    rwa [List.head?_append_of_ne_nil _ hne] at hzero

theorem readFraction_some {bs ds rest : Bytes} (h : readFraction bs = some (ds, rest)) :
    bs = (if ds = [] then [] else fullStop :: ds) ++ rest ∧ ∀ b ∈ ds, isDigit b = true := by
  rw [readFraction] at h
  split at h
  · rename_i hstop
    obtain ⟨htail, hne, hds⟩ := readDigits_some h
    rw [if_neg hne, List.cons_append, ← htail]
    exact ⟨(List.cons_head?_tail hstop).symm, hds⟩
  · cases h
    exact ⟨rfl, nofun⟩

theorem readMark_some {bs mark rest : Bytes} (h : readMark bs = some (mark, rest)) :
    bs = mark ++ rest ∧ mark ∈ exponentMarks := by
  rw [readMark.eq_def] at h
  split at h
  · cases h
  · rename_i e bs
    split at h
    · rename_i he
      split at h
      · cases h
        rcases he with rfl | rfl <;> exact ⟨rfl, by decide⟩
      · rename_i s bs
        split at h
        · rename_i hs
          cases h
          rcases he with rfl | rfl <;> rcases hs with rfl | rfl <;> exact ⟨rfl, by decide⟩
        · cases h
          rcases he with rfl | rfl <;> exact ⟨rfl, by decide⟩
    · cases h

/-- **A number that is read** is a well-formed literal. -/
theorem readNumeral_some {bs rest : Bytes} {x : Numeral} (h : readNumeral bs = some (x, rest)) :
    bs = x.text ++ rest ∧ x.Wf := by
  have hsign := readSign_eq bs
  simp only [readNumeral, Option.bind_eq_bind, Option.pure_def, Option.bind_eq_some_iff] at h
  obtain ⟨⟨whole, bs₁⟩, hwhole, ⟨fraction, bs₂⟩, hfraction, ⟨exponent, bs₃⟩, hexponent, heq⟩ := h
  cases heq
  dsimp only at hfraction hexponent ⊢
  obtain ⟨hbs, hlead, hwholeDigits⟩ := readWhole_some hwhole
  obtain ⟨hbs₁, hfractionDigits⟩ := readFraction_some hfraction
  rw [hbs, hbs₁] at hsign
  rw [readExponent] at hexponent
  split at hexponent
  · cases hexponent
    refine ⟨hsign.trans ?_, hlead, hwholeDigits, hfractionDigits, nofun⟩
    simp only [Numeral.text, Numeral.signText, Numeral.fractionText, Numeral.exponentText,
      markedDigits, List.append_assoc, List.nil_append]
  · rename_i mark bs₄ hmark
    obtain ⟨⟨ds, bs₅⟩, hdigits, heq⟩ := Option.map_eq_some_iff.mp hexponent
    cases heq
    obtain ⟨hbs₂, hmem⟩ := readMark_some hmark
    obtain ⟨hbs₄, hne, hds⟩ := readDigits_some hdigits
    rw [hbs₂, hbs₄] at hsign
    refine ⟨hsign.trans ?_, hlead, hwholeDigits, hfractionDigits, ?_⟩
    · simp only [Numeral.text, Numeral.signText, Numeral.fractionText, Numeral.exponentText,
        markedDigits, List.append_assoc]
    · intro mark' ds' heq
      cases heq
      exact ⟨hmem, hne, hds⟩

theorem readSign_append {negative : Bool} {t : Bytes} (ht : t.head? ≠ some minusSign) :
    readSign ((if negative then [minusSign] else []) ++ t) = (negative, t) := by
  cases negative with
  | true => rfl
  | false =>
    cases t with
    | nil => rfl
    | cons b t => exact if_neg fun hb => ht (congrArg some hb)

theorem readWhole_append {ds rest : Bytes}
    (hlead : ds = [zeroDigit] ∨ (ds ≠ [] ∧ ds.head? ≠ some zeroDigit))
    (hds : ∀ b ∈ ds, isDigit b = true) (hrest : ∀ b, rest.head? = some b → isDigit b = false) :
    readWhole (ds ++ rest) = some (ds, rest) := by
  rcases hlead with rfl | ⟨hne, hlead⟩
  · exact if_pos rfl
  · rw [readWhole, List.head?_append_of_ne_nil _ hne, if_neg hlead]
    exact readDigits_append hne hds hrest

theorem readFraction_append {ds rest : Bytes} (hds : ∀ b ∈ ds, isDigit b = true)
    (hrest : ∀ b, rest.head? = some b → isDigit b = false ∧ b ≠ fullStop) :
    readFraction ((if ds = [] then [] else fullStop :: ds) ++ rest) = some (ds, rest) := by
  by_cases hne : ds = []
  · have hstop : rest.head? ≠ some fullStop := fun h => (hrest _ h).2 rfl
    rw [if_pos hne, List.nil_append, readFraction, if_neg hstop, hne]
  · rw [if_neg hne]
    exact readDigits_append hne hds fun b hb => (hrest b hb).1

theorem readMark_append {mark t : Bytes} (hmark : mark ∈ exponentMarks)
    (ht : ∃ b, t.head? = some b ∧ isDigit b = true) : readMark (mark ++ t) = some (mark, t) := by
  obtain ⟨b, hb, hdigit⟩ := ht
  obtain ⟨t, rfl⟩ : ∃ t', t = b :: t' := ⟨t.tail, (List.cons_head?_tail hb).symm⟩
  have hsign : ¬(b = plusSign ∨ b = minusSign) := by
    rintro (rfl | rfl) <;> cases hdigit
  simp only [exponentMarks, List.mem_cons, List.not_mem_nil, or_false] at hmark
  rcases hmark with rfl | rfl | rfl | rfl | rfl | rfl
  · exact if_neg hsign
  · exact if_neg hsign
  all_goals rfl

theorem readExponent_append {exponent : Option (Bytes × Bytes)} {rest : Bytes}
    (h : ∀ mark ds, exponent = some (mark, ds) →
      mark ∈ exponentMarks ∧ ds ≠ [] ∧ ∀ b ∈ ds, isDigit b = true) (hrest : StopsNumber rest) :
    readExponent (markedDigits exponent ++ rest) = some (exponent, rest) := by
  cases exponent with
  | none =>
    have hmark : readMark rest = none := by
      cases rest with
      | nil => rfl
      | cons b rest =>
        obtain ⟨-, -, he, hE⟩ := hrest b rfl
        exact if_neg fun h => h.elim he hE
    show readExponent rest = _
    rw [readExponent, hmark]
  | some p =>
    obtain ⟨mark, ds⟩ := p
    obtain ⟨hmark, hne, hds⟩ := h mark ds rfl
    have hhead : ∃ b, (ds ++ rest).head? = some b ∧ isDigit b = true := by
      cases ds with
      | nil => exact absurd rfl hne
      | cons b ds => exact ⟨b, rfl, hds b List.mem_cons_self⟩
    show readExponent ((mark ++ ds) ++ rest) = _
    rw [List.append_assoc, readExponent, readMark_append hmark hhead]
    simp only [readDigits_append hne hds fun b hb => (hrest b hb).1, Option.map_some]

/-- What follows the digits before the point does not begin with a digit, and what follows those
after it with no point either. -/
theorem Numeral.Wf.heads {x : Numeral} (h : x.Wf) {rest : Bytes} (hrest : StopsNumber rest) :
    (∀ b, (x.exponentText ++ rest).head? = some b → isDigit b = false ∧ b ≠ fullStop) ∧
      ∀ b, (x.fractionText ++ (x.exponentText ++ rest)).head? = some b → isDigit b = false := by
  have hexponent : ∀ b, (x.exponentText ++ rest).head? = some b →
      isDigit b = false ∧ b ≠ fullStop := by
    intro b hb
    rw [Numeral.exponentText] at hb
    cases he : x.exponent with
    | none =>
      rw [he] at hb
      exact ⟨(hrest b hb).1, (hrest b hb).2.1⟩
    | some p =>
      obtain ⟨mark, ds⟩ := p
      rw [he] at hb
      have hmark := (h.exponent mark ds he).1
      simp only [exponentMarks, List.mem_cons, List.not_mem_nil, or_false] at hmark
      rcases hmark with rfl | rfl | rfl | rfl | rfl | rfl
      all_goals
        obtain rfl := Option.some.inj hb
        decide
  refine ⟨hexponent, fun b hb => ?_⟩
  rw [Numeral.fractionText] at hb
  by_cases hne : x.fraction = []
  · rw [if_pos hne] at hb
    exact (hexponent b hb).1
  · rw [if_neg hne] at hb
    obtain rfl := Option.some.inj hb
    rfl

/-- **A well-formed literal is read.** -/
theorem readNumeral_append {x : Numeral} (h : x.Wf) {rest : Bytes} (hrest : StopsNumber rest) :
    readNumeral (x.text ++ rest) = some (x, rest) := by
  obtain ⟨hexponent, hfraction⟩ := h.heads hrest
  have hsign : (x.whole ++ (x.fractionText ++ (x.exponentText ++ rest))).head? ≠
      some minusSign := by
    have hdigit : ∀ b ∈ x.whole, b ≠ minusSign := by
      rintro b hb rfl
      cases h.whole_digits minusSign hb
    cases hw : x.whole with
    | nil =>
      rcases h.whole with hzero | ⟨hne, -⟩
      · rw [hw] at hzero
        cases hzero
      · exact absurd hw hne
    | cons b ds =>
      intro hb
      exact hdigit b (hw ▸ List.mem_cons_self) (Option.some.inj hb)
  have hread : readNumeral (x.signText ++ (x.whole ++ (x.fractionText ++
      (x.exponentText ++ rest)))) = some (x, rest) := by
    rw [readNumeral, Numeral.signText, readSign_append hsign]
    simp only [readWhole_append h.whole h.whole_digits hfraction, Option.bind_eq_bind,
      Option.bind_some]
    rw [Numeral.fractionText, readFraction_append h.fraction hexponent]
    simp only [Option.bind_some]
    rw [Numeral.exponentText, readExponent_append h.exponent hrest]
    rfl
  rwa [Numeral.text, List.append_assoc, List.append_assoc, List.append_assoc]

/-! ### Reading strings -/

theorem scanString_some {bs body rest : Bytes} (h : scanString bs = some (body, rest)) :
    bs = body ++ quotationMark :: rest ∧ StringBody body := by
  fun_induction scanString bs generalizing body with
  | case2 bs =>
    cases h
    exact ⟨rfl, .nil⟩
  | case4 c bs hc _ ih =>
    obtain ⟨⟨body, _⟩, hp, heq⟩ := Option.map_eq_some_iff.mp h
    cases heq
    obtain ⟨rfl, hbody⟩ := ih hp
    exact ⟨rfl, .escape hc hbody⟩
  | case5 h₁ h₂ h₃ h₄ bs hhex _ _ ih =>
    obtain ⟨⟨body, _⟩, hp, heq⟩ := Option.map_eq_some_iff.mp h
    cases heq
    obtain ⟨rfl, hbody⟩ := ih hp
    refine ⟨rfl, @StringBody.unicode [h₁, h₂, h₃, h₄] body rfl ?_ hbody⟩
    intro b hb
    simp only [List.mem_cons, List.not_mem_nil, or_false] at hb
    rcases hb with rfl | rfl | rfl | rfl
    · exact hhex.1
    · exact hhex.2.1
    · exact hhex.2.2.1
    · exact hhex.2.2.2
  | case10 b bs hquote hslash hcontrol ih =>
    obtain ⟨⟨body, _⟩, hp, heq⟩ := Option.map_eq_some_iff.mp h
    cases heq
    obtain ⟨rfl, hbody⟩ := ih hp
    exact ⟨rfl, .plain hquote hslash (UInt8.not_lt.mp hcontrol) hbody⟩
  | _ => cases h

theorem scanString_append {body : Bytes} (h : StringBody body) (rest : Bytes) :
    scanString (body ++ quotationMark :: rest) = some (body, rest) := by
  have hslash : backslash ≠ quotationMark := by decide
  induction h with
  | nil =>
    rw [List.nil_append, scanString.eq_def]
    exact if_pos rfl
  | plain hquote hplain hcontrol _ ih =>
    rw [List.cons_append, scanString.eq_def]
    simp only [if_neg hquote, if_neg hplain, if_neg (UInt8.not_lt.mpr hcontrol), ih,
      Option.map_some]
  | escape hc _ ih =>
    rw [List.cons_append, List.cons_append, scanString.eq_def]
    simp only [if_neg hslash, if_pos, if_pos hc, ih, Option.map_some]
  | @unicode ds body hlength hhex _ ih =>
    obtain ⟨h₁, h₂, h₃, h₄, rfl⟩ := List.length_eq_four.mp hlength
    have hu : (0x75 : UInt8) ∉ escapes := by decide
    have hall : isHexDigit h₁ ∧ isHexDigit h₂ ∧ isHexDigit h₃ ∧ isHexDigit h₄ :=
      ⟨hhex h₁ (by simp), hhex h₂ (by simp), hhex h₃ (by simp), hhex h₄ (by simp)⟩
    show scanString
      (backslash :: 0x75 :: h₁ :: h₂ :: h₃ :: h₄ :: (body ++ quotationMark :: rest)) = _
    rw [scanString.eq_def]
    simp only [if_neg hslash, if_pos, if_neg hu, if_pos hall, ih, Option.map_some]
    rfl

theorem opens_quotationMark (t : Bytes) : Opens (quotationMark :: t) :=
  ⟨quotationMark, rfl, by decide, by decide, by decide⟩

/-- A string ends at its closing quotation mark, whatever follows. -/
theorem readString_append {s : String} {t : Bytes} (h : SpellsString s t) (rest : Bytes) :
    readString (t ++ rest) = some (s, rest) := by
  obtain ⟨body, hbody, rfl, rfl⟩ := h
  rw [readString, List.cons_append, List.append_assoc]
  show (scanString (body ++ quotationMark :: rest)).map _ = _
  rw [scanString_append hbody]
  rfl

theorem reads_string : Reads readString SpellsString where
  sound {bs s rest} h := by
    rw [readString] at h
    split at h
    · rename_i hquote
      obtain ⟨⟨body, _⟩, hscan, heq⟩ := Option.map_eq_some_iff.mp h
      cases heq
      obtain ⟨htail, hbody⟩ := scanString_some hscan
      refine ⟨_, ?_, body, hbody, rfl, rfl⟩
      rw [← List.cons_head?_tail hquote, htail]
      simp
    · cases h
  complete h rest _ := readString_append h rest
  opens {s t} h := by
    obtain ⟨body, -, -, rfl⟩ := h
    exact opens_quotationMark _

/-! ### Reading lists -/

section ReadLists

variable {α : Type} {item : Reader α} {R : α → Bytes → Prop} {close : UInt8}

theorem readItems_some (hitem : Reads item R) {n : ℕ} {bs rest : Bytes} {as : List α}
    (h : readItems item close n bs = some (as, rest)) :
    ∃ body, bs = body ++ close :: rest ∧ Items R as body := by
  induction n generalizing bs as with
  | zero => cases h
  | succ n ih =>
    simp only [readItems, Option.bind_eq_bind, Option.bind_eq_some_iff] at h
    obtain ⟨⟨a, r⟩, hread, h⟩ := h
    obtain ⟨u, hu, hbs⟩ := skipSpace_eq bs
    obtain ⟨t, ht, hR⟩ := hitem.sound hread
    obtain ⟨w, hw, hr⟩ := skipSpace_eq r
    rw [ht, hr] at hbs
    split at h
    · cases h
    · rename_i c r' hc
      rw [hc] at hbs
      split at h
      · rename_i hcomma
        obtain ⟨⟨as', _⟩, hrest, heq⟩ := Option.map_eq_some_iff.mp h
        cases heq
        obtain ⟨body, rfl, hitems⟩ := ih hrest
        refine ⟨u ++ t ++ w ++ comma :: body, ?_, .cons hu hR hw hitems⟩
        rw [hbs, hcomma]
        simp only [List.append_assoc, List.cons_append]
      · split at h
        · rename_i hclose
          cases h
          refine ⟨u ++ t ++ w, ?_, .last hu hR hw⟩
          rw [hbs, hclose]
          simp only [List.append_assoc]
        · cases h

/-- The brackets that close a list. -/
def IsClose (close : UInt8) : Prop := close = closeBracket ∨ close = closeBrace

theorem IsClose.delimits (hclose : IsClose close) (rest : Bytes) : Delimits (close :: rest) :=
  delimits_cons rest (.inr (.inr hclose))

theorem IsClose.unspaced (hclose : IsClose close) (rest : Bytes) : Unspaced (close :: rest) := by
  rcases hclose with rfl | rfl <;> exact fun b hb => Option.some.inj hb ▸ rfl

theorem Opens.ne_close {t : Bytes} (h : Opens t) (hclose : IsClose close) (rest : Bytes) :
    (t ++ rest).head? ≠ some close := by
  obtain ⟨b, hb, -, hbracket, hbrace⟩ := h
  rw [List.head?_append, hb]
  intro heq
  obtain rfl : b = close := Option.some.inj heq
  exact hclose.elim hbracket hbrace

theorem unspaced_comma (rest : Bytes) : Unspaced (comma :: rest) :=
  fun _ hb => Option.some.inj hb ▸ rfl

theorem readItems_append (hitem : Reads item R) (hclose : IsClose close) {as : List α}
    {body : Bytes} (h : Items R as body) {n : ℕ} (hn : as.length ≤ n) (rest : Bytes) :
    readItems item close n (body ++ close :: rest) = some (as, rest) := by
  have hne : close ≠ comma := by
    rcases hclose with rfl | rfl <;> decide
  induction h generalizing n with
  | @last a u t w hu hR hw =>
    obtain ⟨n, rfl⟩ := Nat.exists_eq_succ_of_ne_zero (Nat.ne_of_gt hn)
    have hskip : skipSpace (u ++ t ++ w ++ close :: rest) = t ++ (w ++ close :: rest) := by
      rw [List.append_assoc, List.append_assoc]
      exact skipSpace_append hu ((hitem.opens hR).unspaced _)
    have hread := hitem.complete hR (w ++ close :: rest)
      (delimits_append hw (hclose.delimits rest))
    simp only [readItems, hskip, hread, Option.bind_eq_bind, Option.bind_some,
      skipSpace_append hw (hclose.unspaced rest), if_neg hne, if_pos]
  | @cons a u t w body as hu hR hw _ ih =>
    obtain ⟨n, rfl⟩ := Nat.exists_eq_succ_of_ne_zero (Nat.ne_of_gt (Nat.zero_lt_of_lt hn))
    have hskip : skipSpace (u ++ t ++ w ++ comma :: body ++ close :: rest) =
        t ++ (w ++ comma :: (body ++ close :: rest)) := by
      rw [List.append_assoc, List.append_assoc, List.append_assoc]
      exact skipSpace_append hu ((hitem.opens hR).unspaced _)
    have hread := hitem.complete hR (w ++ comma :: (body ++ close :: rest))
      (delimits_append hw (delimits_cons _ (.inr (.inl rfl))))
    simp only [readItems, hskip, hread, Option.bind_eq_bind, Option.bind_some,
      skipSpace_append hw (unspaced_comma _), if_pos, ih (Nat.le_of_succ_le_succ hn),
      Option.map_some]

/-- Every item takes a byte. -/
theorem Items.length_le (hitem : Reads item R) {as : List α} {body : Bytes} (h : Items R as body) :
    as.length ≤ body.length := by
  have hpos : ∀ {a t}, R a t → 0 < t.length := by
    intro a t hR
    obtain ⟨b, hb, -⟩ := hitem.opens hR
    cases t with
    | nil => cases hb
    | cons b t => exact Nat.succ_pos _
  induction h with
  | last _ hR _ =>
    have := hpos hR
    simp only [List.length_append, List.length_singleton]
    omega
  | cons _ hR _ _ ih =>
    simp only [List.length_append, List.length_cons]
    omega

theorem Items.head_ne_close (hitem : Reads item R) (hclose : IsClose close) {as : List α}
    {body : Bytes} (h : Items R as body) (rest : Bytes) :
    (skipSpace (body ++ rest)).head? ≠ some close := by
  cases h with
  | @last a u t w hu hR _ =>
    rw [List.append_assoc, List.append_assoc,
      skipSpace_append hu ((hitem.opens hR).unspaced _)]
    exact (hitem.opens hR).ne_close hclose _
  | @cons a u t w body as hu hR _ _ =>
    rw [List.append_assoc, List.append_assoc, List.append_assoc,
      skipSpace_append hu ((hitem.opens hR).unspaced _)]
    exact (hitem.opens hR).ne_close hclose _

theorem readListed_some (hitem : Reads item R) {bs rest : Bytes} {as : List α}
    (h : readListed item close bs = some (as, rest)) :
    ∃ body, bs = body ++ close :: rest ∧ Listed R as body := by
  rw [readListed] at h
  split at h
  · rename_i hhead
    cases h
    obtain ⟨u, hu, hbs⟩ := skipSpace_eq bs
    refine ⟨u, ?_, .none hu⟩
    rw [List.cons_head?_tail hhead]
    exact hbs
  · obtain ⟨body, hbs, hitems⟩ := readItems_some hitem h
    exact ⟨body, hbs, .some hitems⟩

theorem readListed_append (hitem : Reads item R) (hclose : IsClose close) {as : List α}
    {body : Bytes} (h : Listed R as body) (rest : Bytes) :
    readListed item close (body ++ close :: rest) = some (as, rest) := by
  cases h with
  | none hu =>
    rw [readListed, skipSpace_append hu (hclose.unspaced rest)]
    exact if_pos rfl
  | some hitems =>
    rw [readListed, if_neg (hitems.head_ne_close hitem hclose _)]
    refine readItems_append hitem hclose hitems ?_ rest
    have hlength := hitems.length_le hitem
    rw [List.length_append]
    omega

end ReadLists

/-! ### Reading values -/

theorem unspaced_colon (rest : Bytes) : Unspaced (colon :: rest) :=
  fun _ hb => Option.some.inj hb ▸ rfl

theorem reads_member {value : Reader Json} {R : Json → Bytes → Prop} (hvalue : Reads value R) :
    Reads (readMember value) (SpellsMember R) where
  sound {bs m rest} h := by
    simp only [readMember, Option.bind_eq_bind, Option.bind_eq_some_iff] at h
    obtain ⟨⟨k, r⟩, hstring, h⟩ := h
    split at h
    · rename_i hcolon
      obtain ⟨⟨v, _⟩, hread, heq⟩ := Option.map_eq_some_iff.mp h
      cases heq
      obtain ⟨tk, rfl, hk⟩ := reads_string.sound hstring
      obtain ⟨u, hu, hr⟩ := skipSpace_eq r
      obtain ⟨w, hw, hr'⟩ := skipSpace_eq (skipSpace r).tail
      obtain ⟨tv, htv, hv⟩ := hvalue.sound hread
      refine ⟨_, ?_, tk, u, w, tv, hk, hu, hw, hv, rfl⟩
      rw [← List.cons_head?_tail hcolon, hr', htv] at hr
      rw [hr]
      simp only [List.append_assoc, List.cons_append]
    · cases h
  complete {m t} h rest hrest := by
    obtain ⟨k, u, w, v, hk, hu, hw, hv, rfl⟩ := h
    have hskip : skipSpace (u ++ colon :: (w ++ v) ++ rest) = colon :: (w ++ (v ++ rest)) := by
      rw [List.append_assoc, List.cons_append, List.append_assoc]
      exact skipSpace_append hu (unspaced_colon _)
    have hstring := readString_append hk (u ++ colon :: (w ++ v) ++ rest)
    rw [← List.append_assoc, ← List.append_assoc] at hstring
    have hafter : skipSpace (w ++ (v ++ rest)) = v ++ rest :=
      skipSpace_append hw ((hvalue.opens hv).unspaced _)
    simp only [readMember, hstring, Option.bind_eq_bind, Option.bind_some, hskip, List.head?_cons,
      if_pos, List.tail_cons, hafter, hvalue.complete hv rest hrest, Option.map_some]
  opens {m t} h := by
    obtain ⟨k, u, w, v, ⟨body, -, -, rfl⟩, -, -, -, rfl⟩ := h
    exact opens_quotationMark _

/-- A number begins with a minus sign or a digit. -/
theorem Numeral.Wf.head {x : Numeral} (h : x.Wf) :
    ∃ b, x.text.head? = some b ∧ (b = minusSign ∨ isDigit b = true) := by
  obtain ⟨negative, whole, fraction, exponent⟩ := x
  cases negative with
  | true => exact ⟨minusSign, rfl, .inl rfl⟩
  | false =>
    cases whole with
    | nil => exact absurd rfl (h.whole.elim (fun h => by cases h) fun h => h.1)
    | cons b ds => exact ⟨b, rfl, .inr (h.whole_digits b List.mem_cons_self)⟩

/-- The first bytes of numbers. -/
theorem numberHead_spec {b : UInt8} (h : b = minusSign ∨ isDigit b = true) :
    isSpace b = false ∧ b ≠ closeBracket ∧ b ≠ closeBrace ∧ b ≠ quotationMark ∧
      b ≠ openBracket ∧ b ≠ openBrace ∧ b ≠ 0x6e ∧ b ≠ 0x74 ∧ b ≠ 0x66 := by
  have hno : ∀ c : UInt8, ¬(c = minusSign ∨ isDigit c = true) → b ≠ c := by
    rintro c hc rfl
    exact hc h
  have hspace : isSpace b = false := by
    simp only [isSpace, hno 0x20 (by decide), hno 0x09 (by decide), hno 0x0a (by decide),
      hno 0x0d (by decide), decide_false, Bool.or_false]
  exact ⟨hspace, hno _ (by decide), hno _ (by decide), hno _ (by decide), hno _ (by decide),
    hno _ (by decide), hno _ (by decide), hno _ (by decide), hno _ (by decide)⟩

theorem readWord_some {bs rest : Bytes} {v : Json} (h : readWord bs = some (v, rest)) :
    ∃ t, bs = t ++ rest ∧ SpellsScalar v t := by
  have hdrop : ∀ {t : Bytes}, t <+: bs → bs = t ++ bs.drop t.length := by
    rintro t ⟨r, rfl⟩
    rw [List.drop_left]
  rw [readWord] at h
  split at h
  · rename_i hword
    cases h
    exact ⟨_, hdrop hword, .null⟩
  split at h
  · rename_i hword
    cases h
    exact ⟨_, hdrop hword, .true⟩
  split at h
  · rename_i hword
    cases h
    exact ⟨_, hdrop hword, .false⟩
  · cases h

theorem readWord_of_head {b : UInt8} {t : Bytes} (hn : b ≠ 0x6e) (ht : b ≠ 0x74) (hf : b ≠ 0x66) :
    readWord (b :: t) = none := by
  have hnot : ∀ w : Bytes, (∀ c, w.head? = some c → b ≠ c) → w ≠ [] → ¬(w <+: b :: t) := by
    intro w hhead hne hprefix
    cases w with
    | nil => exact hne rfl
    | cons c w => exact hhead c rfl (List.cons_prefix_cons.mp hprefix).1.symm
  have hnull := hnot (ascii "null") (fun c hc => Option.some.inj hc ▸ hn) (by decide)
  have htrue := hnot (ascii "true") (fun c hc => Option.some.inj hc ▸ ht) (by decide)
  have hfalse := hnot (ascii "false") (fun c hc => Option.some.inj hc ▸ hf) (by decide)
  rw [readWord, if_neg hnull, if_neg htrue, if_neg hfalse]

theorem reads_scalar : Reads readScalar SpellsScalar where
  sound {bs v rest} h := by
    rw [readScalar] at h
    split at h
    · obtain ⟨⟨s, _⟩, hstring, heq⟩ := Option.map_eq_some_iff.mp h
      cases heq
      obtain ⟨t, hbs, hs⟩ := reads_string.sound hstring
      exact ⟨t, hbs, .str hs⟩
    · split at h
      · rename_i p hword
        cases h
        exact readWord_some hword
      · obtain ⟨⟨x, _⟩, hnumber, heq⟩ := Option.map_eq_some_iff.mp h
        cases heq
        obtain ⟨hbs, hx⟩ := readNumeral_some hnumber
        exact ⟨_, hbs, .number hx⟩
  complete {v t} h rest hrest := by
    cases h with
    | null => rfl
    | true => rfl
    | false => rfl
    | str hs =>
      have hhead : (t ++ rest).head? = some quotationMark := by
        obtain ⟨body, -, -, rfl⟩ := hs
        rfl
      rw [readScalar, if_pos hhead, readString_append hs]
      rfl
    | @number x hx =>
      obtain ⟨b, hb, hhead⟩ := hx.head
      obtain ⟨-, -, -, hquote, -, -, hn, ht, hf⟩ := numberHead_spec hhead
      have htext := List.cons_head?_tail hb
      have hnotString : (x.text ++ rest).head? ≠ some quotationMark := by
        rw [List.head?_append, hb]
        exact fun heq => hquote (Option.some.inj heq)
      have hnotWord : readWord (x.text ++ rest) = none := by
        rw [← htext]
        exact readWord_of_head hn ht hf
      rw [readScalar, if_neg hnotString, hnotWord]
      simp only [readNumeral_append hx hrest.stopsNumber, Option.map_some]
  opens {v t} h := by
    cases h with
    | null => exact ⟨0x6e, rfl, by decide, by decide, by decide⟩
    | true => exact ⟨0x74, rfl, by decide, by decide, by decide⟩
    | false => exact ⟨0x66, rfl, by decide, by decide, by decide⟩
    | str hs => exact reads_string.opens hs
    | @number x hx =>
      obtain ⟨b, hb, hhead⟩ := hx.head
      obtain ⟨hspace, hbracket, hbrace, -⟩ := numberHead_spec hhead
      exact ⟨b, hb, hspace, hbracket, hbrace⟩

/-- A value without parts begins with no bracket. -/
theorem SpellsScalar.head {v : Json} {t : Bytes} (h : SpellsScalar v t) (rest : Bytes) :
    (t ++ rest).head? ≠ some openBracket ∧ (t ++ rest).head? ≠ some openBrace := by
  have hof : ∀ b, t.head? = some b → b ≠ openBracket → b ≠ openBrace →
      (t ++ rest).head? ≠ some openBracket ∧ (t ++ rest).head? ≠ some openBrace := by
    intro b hb hbracket hbrace
    rw [List.head?_append, hb]
    exact ⟨fun heq => hbracket (Option.some.inj heq), fun heq => hbrace (Option.some.inj heq)⟩
  cases h with
  | null => exact hof 0x6e rfl (by decide) (by decide)
  | true => exact hof 0x74 rfl (by decide) (by decide)
  | false => exact hof 0x66 rfl (by decide) (by decide)
  | str hs =>
    obtain ⟨body, -, -, rfl⟩ := hs
    exact hof quotationMark rfl (by decide) (by decide)
  | @number x hx =>
    obtain ⟨b, hb, hhead⟩ := hx.head
    obtain ⟨-, -, -, -, hbracket, hbrace, -⟩ := numberHead_spec hhead
    exact hof b hb hbracket hbrace

theorem readValue_openBracket (d : ℕ) (bs : Bytes) :
    readValue (d + 1) (openBracket :: bs) =
      (readListed (readValue d) closeBracket bs).map fun p => (.arr p.1, p.2) :=
  if_pos rfl

theorem readValue_openBrace (d : ℕ) (bs : Bytes) :
    readValue (d + 1) (openBrace :: bs) =
      (readListed (readMember (readValue d)) closeBrace bs).map fun p => (.obj p.1, p.2) := by
  have hne : (openBrace :: bs).head? ≠ some openBracket := by
    intro heq
    cases heq
  rw [readValue, if_neg hne]
  exact if_pos rfl

/-- **The reader reads a value's text**, and nothing else. -/
theorem reads_value (d : ℕ) : Reads (readValue d) (Spells d) := by
  induction d with
  | zero => exact reads_scalar
  | succ d ih =>
    have hmember := reads_member ih
    constructor
    case sound =>
      intro bs v rest h
      rw [readValue] at h
      split at h
      · rename_i hopen
        obtain ⟨⟨vs, _⟩, hlist, heq⟩ := Option.map_eq_some_iff.mp h
        cases heq
        obtain ⟨body, htail, hbody⟩ := readListed_some ih hlist
        refine ⟨_, ?_, .inr (.inl ⟨vs, body, rfl, hbody, rfl⟩)⟩
        rw [← List.cons_head?_tail hopen, htail]
        simp
      · split at h
        · rename_i hopen
          obtain ⟨⟨members, _⟩, hlist, heq⟩ := Option.map_eq_some_iff.mp h
          cases heq
          obtain ⟨body, htail, hbody⟩ := readListed_some hmember hlist
          refine ⟨_, ?_, .inr (.inr ⟨members, body, rfl, hbody, rfl⟩)⟩
          rw [← List.cons_head?_tail hopen, htail]
          simp
        · obtain ⟨t, hbs, ht⟩ := reads_scalar.sound h
          exact ⟨t, hbs, .inl ht⟩
    case complete =>
      intro v t h rest hrest
      rcases h with h | ⟨vs, body, rfl, hbody, rfl⟩ | ⟨members, body, rfl, hbody, rfl⟩
      · obtain ⟨hbracket, hbrace⟩ := h.head rest
        rw [readValue, if_neg hbracket, if_neg hbrace]
        exact reads_scalar.complete h rest hrest
      · rw [List.cons_append, List.append_assoc, readValue_openBracket]
        show (readListed (readValue d) closeBracket (body ++ closeBracket :: rest)).map _ = _
        rw [readListed_append ih (.inl rfl) hbody]
        rfl
      · rw [List.cons_append, List.append_assoc, readValue_openBrace]
        show (readListed (readMember (readValue d)) closeBrace
          (body ++ closeBrace :: rest)).map _ = _
        rw [readListed_append hmember (.inr rfl) hbody]
        rfl
    case opens =>
      intro v t h
      rcases h with h | ⟨vs, body, rfl, hbody, rfl⟩ | ⟨members, body, rfl, hbody, rfl⟩
      · exact reads_scalar.opens h
      · exact ⟨openBracket, rfl, by decide, by decide, by decide⟩
      · exact ⟨openBrace, rfl, by decide, by decide, by decide⟩

/-- **A whole text is parsed** exactly when it is a value's text between spaces. -/
theorem parseText_iff (data : Bytes) (v : Json) :
    parseText data = some v ↔
      ∃ u t w, Spaces u ∧ Spells maxNestingDepth v t ∧ Spaces w ∧ data = u ++ t ++ w := by
  have hreads := reads_value maxNestingDepth
  constructor
  · intro h
    rw [parseText] at h
    split at h
    · rename_i v' rest hfirst
      split at h
      · rename_i hrest
        cases h
        obtain ⟨u, hu, hdata⟩ := skipSpace_eq data
        obtain ⟨t, ht, hspells⟩ := hreads.sound hfirst
        obtain ⟨w, hw, hws⟩ := skipSpace_eq rest
        rw [hrest, List.append_nil] at hws
        rw [ht, hws, ← List.append_assoc] at hdata
        exact ⟨u, t, w, hu, hspells, hw, hdata⟩
      · cases h
    · cases h
  · rintro ⟨u, t, w, hu, hspells, hw, rfl⟩
    have hskip : skipSpace (u ++ t ++ w) = t ++ w := by
      rw [List.append_assoc]
      exact skipSpace_append hu ((hreads.opens hspells).unspaced w)
    have hend : skipSpace w = [] := by
      have := skipSpace_append hw (t := []) nofun
      rwa [List.append_nil] at this
    have hdelimits : Delimits w := by
      have := delimits_append hw delimits_nil
      rwa [List.append_nil] at this
    rw [parseText, parseFirst, hskip, hreads.complete hspells w hdelimits]
    exact if_pos hend

end GoJson
