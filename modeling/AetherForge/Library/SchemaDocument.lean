import AetherForge.Library.GoJson

/-!
# Schema documents

A JSON document that says of other JSON values whether they are meant, by the keywords `type`,
`enum`, `minimum`, `maximum`, `items`, `properties` and `required`.  A keyword that a document does
not have asks nothing, and members that `properties` does not name may be there.

* `Admits` — what each keyword asks of a value;
* `Admits.string`, `Admits.choice`, `Admits.integer`, `Admits.number`, `Admits.array`,
  `Admits.object` — the values that the documents of each type admit;
* `admits`, `admits_sound` — a check.
-/

namespace GoJson

/-- The value that a document gives to a keyword. -/
def keyword (doc : Json) (name : String) : Option Json :=
  match doc with
  | .obj members => (members.find? fun m => m.1 = name).map Prod.snd
  | _ => none

/-- The number that a value is. -/
def numberOf : Json → Option ℚ
  | .int n => some n
  | .dec q => some q
  | _ => none

/-- The values of a type; a number without a fractional part is an integer, however it is
written. -/
structure HasType (t : String) (v : Json) : Prop where
  string : t = "string" → ∃ s, v = .str s
  integer : t = "integer" → ∃ n : ℤ, numberOf v = some (n : ℚ)
  number : t = "number" → ∃ q, numberOf v = some q
  array : t = "array" → ∃ ws, v = .arr ws
  object : t = "object" → ∃ members, v = .obj members

/-- The document admits the value. -/
inductive Admits : Json → Json → Prop
  | mk {doc v : Json}
      (type : ∀ t, keyword doc "type" = some (.str t) → HasType t v)
      (enum : ∀ vs, keyword doc "enum" = some (.arr vs) → v ∈ vs)
      (minimum : ∀ m lo q, keyword doc "minimum" = some m → numberOf m = some lo →
        numberOf v = some q → lo ≤ q)
      (maximum : ∀ m hi q, keyword doc "maximum" = some m → numberOf m = some hi →
        numberOf v = some q → q ≤ hi)
      (items : ∀ s ws w, keyword doc "items" = some s → v = .arr ws → w ∈ ws → Admits s w)
      (properties : ∀ ps members k s w, keyword doc "properties" = some (.obj ps) →
        v = .obj members → (k, s) ∈ ps → (k, w) ∈ members → Admits s w)
      (required : ∀ names members k, keyword doc "required" = some (.arr names) →
        v = .obj members → .str k ∈ names → ∃ w, (k, w) ∈ members) :
      Admits doc v

section Rules

variable {doc v : Json}

theorem Admits.string (h : Admits doc v) (htype : keyword doc "type" = some (.str "string")) :
    ∃ s, v = .str s := by
  obtain ⟨type, -, -, -, -, -, -⟩ := h
  exact (type _ htype).string rfl

/-- A string that is one of some. -/
theorem Admits.choice {names : List String} (h : Admits doc v)
    (henum : keyword doc "enum" = some (.arr (names.map .str))) : ∃ s ∈ names, v = .str s := by
  obtain ⟨-, enum, -, -, -, -, -⟩ := h
  obtain ⟨s, hs, heq⟩ := List.mem_map.mp (enum _ henum)
  exact ⟨s, hs, heq.symm⟩

/-- An integer with a lower bound. -/
theorem Admits.integer {m : Json} {lo : ℚ} (h : Admits doc v)
    (htype : keyword doc "type" = some (.str "integer"))
    (hmin : keyword doc "minimum" = some m) (hlo : numberOf m = some lo) :
    ∃ n : ℤ, numberOf v = some (n : ℚ) ∧ lo ≤ n := by
  obtain ⟨type, -, minimum, -, -, -, -⟩ := h
  obtain ⟨n, hn⟩ := (type _ htype).integer rfl
  exact ⟨n, hn, minimum m lo _ hmin hlo hn⟩

/-- A number between bounds. -/
theorem Admits.number {m m' : Json} {lo hi : ℚ} (h : Admits doc v)
    (htype : keyword doc "type" = some (.str "number"))
    (hmin : keyword doc "minimum" = some m) (hlo : numberOf m = some lo)
    (hmax : keyword doc "maximum" = some m') (hhi : numberOf m' = some hi) :
    ∃ q, numberOf v = some q ∧ lo ≤ q ∧ q ≤ hi := by
  obtain ⟨type, -, minimum, maximum, -, -, -⟩ := h
  obtain ⟨q, hq⟩ := (type _ htype).number rfl
  exact ⟨q, hq, minimum m lo _ hmin hlo hq, maximum m' hi _ hmax hhi hq⟩

theorem Admits.array {s : Json} (h : Admits doc v)
    (htype : keyword doc "type" = some (.str "array")) (hitems : keyword doc "items" = some s) :
    ∃ ws, v = .arr ws ∧ ∀ w ∈ ws, Admits s w := by
  obtain ⟨type, -, -, -, items, -, -⟩ := h
  obtain ⟨ws, rfl⟩ := (type _ htype).array rfl
  exact ⟨ws, rfl, fun w hw => items s ws w hitems rfl hw⟩

/-- An object with some properties, some of them required. -/
theorem Admits.object {ps : List (String × Json)} {names : List Json} (h : Admits doc v)
    (htype : keyword doc "type" = some (.str "object"))
    (hprops : keyword doc "properties" = some (.obj ps))
    (hrequired : keyword doc "required" = some (.arr names)) :
    ∃ members, v = .obj members ∧ (∀ k s w, (k, s) ∈ ps → (k, w) ∈ members → Admits s w) ∧
      ∀ k, .str k ∈ names → ∃ w, (k, w) ∈ members := by
  obtain ⟨type, -, -, -, -, properties, required⟩ := h
  obtain ⟨members, rfl⟩ := (type _ htype).object rfl
  exact ⟨members, rfl, fun k s w hs hw => properties ps members k s w hprops rfl hs hw,
    fun k hk => required names members k hrequired rfl hk⟩

end Rules

/-! ### Checking -/

/-- Whether a value is of a type that a document names. -/
def hasType : Option Json → Json → Bool
  | some (.str "string"), .str _ => true
  | some (.str "integer"), v => (numberOf v).any (·.den = 1)
  | some (.str "number"), v => (numberOf v).isSome
  | some (.str "array"), .arr _ => true
  | some (.str "object"), .obj _ => true
  | some (.str _), _ => false
  | _, _ => true

def Json.isString (s : String) : Json → Bool
  | .str t => t = s
  | _ => false

/-- Whether a string is among those that a document lists. -/
def isListed : Option Json → Json → Bool
  | some (.arr vs), .str s => vs.any (Json.isString s)
  | some (.arr _), _ => false
  | _, _ => true

/-- Whether a number stands in a relation to a bound that a document gives. -/
def isWithin (r : ℚ → ℚ → Bool) (bound : Option Json) (v : Json) : Bool :=
  match bound.bind numberOf, numberOf v with
  | some b, some q => r b q
  | _, _ => true

def hasRequired : Option Json → Json → Bool
  | some (.arr names), .obj members =>
    names.all fun name => members.any fun m => name.isString m.1
  | _, _ => true

/-- Whether a document admits a value, down to a depth; the choices are among strings. -/
def admits : ℕ → Json → Json → Bool
  | 0, _, _ => false
  | depth + 1, doc, v =>
    hasType (keyword doc "type") v && isListed (keyword doc "enum") v &&
      isWithin (fun lo q => lo ≤ q) (keyword doc "minimum") v &&
      isWithin (fun hi q => q ≤ hi) (keyword doc "maximum") v &&
      (match keyword doc "items", v with
        | some s, .arr ws => ws.all (admits depth s)
        | _, _ => true) &&
      (match keyword doc "properties", v with
        | some (.obj ps), .obj members =>
          ps.all fun p => members.all fun m => !decide (m.1 = p.1) || admits depth p.2 m.2
        | _, _ => true) &&
      hasRequired (keyword doc "required") v

theorem hasType_sound {t : String} {v : Json} (h : hasType (some (.str t)) v = true) :
    HasType t v := by
  constructor
  · rintro rfl
    cases v with
    | str s => exact ⟨s, rfl⟩
    | null | bool | int | dec | arr | obj => cases h
  · rintro rfl
    obtain ⟨q, hq, hden⟩ := (Option.any_eq_true _ _).mp h
    have hwhole : q.den = 1 := of_decide_eq_true hden
    exact ⟨q.num, by rw [hq, Rat.coe_int_num_of_den_eq_one hwhole]⟩
  · rintro rfl
    exact Option.isSome_iff_exists.mp h
  · rintro rfl
    cases v with
    | arr ws => exact ⟨ws, rfl⟩
    | null | bool | int | dec | str | obj => cases h
  · rintro rfl
    cases v with
    | obj members => exact ⟨members, rfl⟩
    | null | bool | int | dec | str | arr => cases h

theorem Json.eq_of_isString {s : String} {v : Json} (h : v.isString s = true) : v = .str s := by
  cases v with
  | str t => rw [of_decide_eq_true h]
  | null | bool | int | dec | arr | obj => cases h

theorem isListed_sound {vs : List Json} {v : Json} (h : isListed (some (.arr vs)) v = true) :
    v ∈ vs := by
  cases v with
  | str s =>
    obtain ⟨w, hw, hstring⟩ := List.any_eq_true.mp h
    rwa [Json.eq_of_isString hstring] at hw
  | null | bool | int | dec | arr | obj => cases h

theorem isWithin_sound {r : ℚ → ℚ → Bool} {m v : Json} {b q : ℚ}
    (h : isWithin r (some m) v = true) (hm : numberOf m = some b) (hv : numberOf v = some q) :
    r b q = true := by
  rwa [isWithin, Option.bind_some, hm, hv] at h

theorem hasRequired_sound {names : List Json} {members : List (String × Json)}
    (h : hasRequired (some (.arr names)) (.obj members) = true) {k : String}
    (hk : .str k ∈ names) : ∃ w, (k, w) ∈ members := by
  obtain ⟨⟨k', w⟩, hmem, hstring⟩ := List.any_eq_true.mp (List.all_eq_true.mp h _ hk)
  cases Json.eq_of_isString hstring
  exact ⟨w, hmem⟩

/-- **What is checked is admitted.** -/
theorem admits_sound {depth : ℕ} {doc v : Json} (h : admits depth doc v = true) :
    Admits doc v := by
  induction depth generalizing doc v with
  | zero => cases h
  | succ depth ih =>
    simp only [admits, Bool.and_eq_true] at h
    obtain ⟨⟨⟨⟨⟨⟨htype, hlisted⟩, hmin⟩, hmax⟩, hitems⟩, hprops⟩, hrequired⟩ := h
    constructor
    · intro t ht
      rw [ht] at htype
      exact hasType_sound htype
    · intro vs hvs
      rw [hvs] at hlisted
      exact isListed_sound hlisted
    · intro m lo q hm hlo hq
      rw [hm] at hmin
      exact of_decide_eq_true (isWithin_sound hmin hlo hq)
    · intro m hi q hm hhi hq
      rw [hm] at hmax
      exact of_decide_eq_true (isWithin_sound hmax hhi hq)
    · intro s ws w hs hv hw
      subst hv
      rw [hs] at hitems
      exact ih (List.all_eq_true.mp hitems w hw)
    · intro ps members k s w hps hv hs hw
      subst hv
      rw [hps] at hprops
      have hmember := List.all_eq_true.mp (List.all_eq_true.mp hprops (k, s) hs) (k, w) hw
      rw [decide_eq_true rfl, Bool.not_true, Bool.false_or] at hmember
      exact ih hmember
    · intro names members k hnames hv hk
      subst hv
      rw [hnames] at hrequired
      exact hasRequired_sound hrequired hk

end GoJson
