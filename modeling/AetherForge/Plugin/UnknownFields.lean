import AetherForge.Library.JsonPath
import AetherForge.Plugin.CodecAgreement

/-!
# What the strict-field check finds

`FindUnknownField` on any two objects, of whatever shapes: the path that it reports names a key
that is not known, but it does not look into a value that stands against one of another kind, into
an array in an array, or into elements beyond those that are known.

* `UnknownKey`, `Slips` — the keys without counterpart that the check comes to, and the others;
* `findUnknownField_reports` — it reports one of the first, and finds nothing when there is none;
* `uncovered_iff` — every key without counterpart is of one of the two kinds;
* `findUnknownField_complete_iff` — it is complete unless all that there is to find slips past.
-/

namespace AetherForge.Plugin

open StructJson

/-! ### The keys that it comes to -/

/-- A key without counterpart, in an object that is reached through known objects, and through
arrays whose elements at the place are both objects. -/
inductive UnknownKey : JsonValue → JsonValue → Path → Prop
  | here {known members : JsonObject} {k : String} {v : JsonValue} :
      (k, v) ∈ members → tryGetField foldKey known k = none →
        UnknownKey (.object known) (.object members) [.key k]
  | inMember {known members : JsonObject} {k : String} {knownValue v : JsonValue} {p : Path} :
      (k, v) ∈ members → tryGetField foldKey known k = some knownValue →
        UnknownKey knownValue v p → UnknownKey (.object known) (.object members) (.key k :: p)
  | inElem {knownElems elems : List JsonValue} {n : ℕ} {known members : JsonObject} {p : Path} :
      elems[n]? = some (.object members) → knownElems[n]? = some (.object known) →
        UnknownKey (.object known) (.object members) p →
          UnknownKey (.array knownElems) (.array elems) (.index n :: p)

/-- How a path is written below one that has been written. -/
def fieldPath : String → Path → String
  | path, [] => path
  | path, .key k :: p => fieldPath (if path = "" then k else path ++ "." ++ k) p
  | path, .index n :: p => fieldPath (path ++ "[" ++ toString n ++ "]") p

/-- One of the bad paths is reported, or there is none and nothing is reported. -/
def Reports (result : Option String) (path : String) (bad : Path → Prop) : Prop :=
  (result = none ∧ ∀ p, ¬bad p) ∨ ∃ p, bad p ∧ result = some (fieldPath path p)

theorem Reports.none {path : String} {bad : Path → Prop} (h : ∀ p, ¬bad p) :
    Reports none path bad := .inl ⟨rfl, h⟩

theorem Reports.congr {result : Option String} {path : String} {bad bad' : Path → Prop}
    (h : Reports result path bad') (hbad : ∀ p, bad p ↔ bad' p) : Reports result path bad := by
  rcases h with ⟨rfl, hnone⟩ | ⟨p, hp, rfl⟩
  · exact .none fun p hp => hnone p ((hbad p).mp hp)
  · exact .inr ⟨p, (hbad p).mpr hp, rfl⟩

/-- A search one step further down. -/
theorem Reports.below {result : Option String} {path path' : String} {bad bad' : Path → Prop}
    {s : Segment} (h : Reports result path' bad')
    (hpath : ∀ p, fieldPath path' p = fieldPath path (s :: p))
    (hbad : ∀ p, bad p ↔ ∃ q, p = s :: q ∧ bad' q) : Reports result path bad := by
  rcases h with ⟨rfl, hnone⟩ | ⟨p, hp, rfl⟩
  · refine .none fun p hp => ?_
    obtain ⟨q, rfl, hq⟩ := (hbad p).mp hp
    exact hnone q hq
  · exact .inr ⟨s :: p, (hbad _).mpr ⟨p, rfl, hp⟩, congrArg some (hpath p)⟩

/-- Two searches, the second only when the first finds nothing. -/
theorem Reports.or {result rest : Option String} {path : String} {bad bad₁ bad₂ : Path → Prop}
    (h₁ : Reports result path bad₁) (h₂ : Reports rest path bad₂)
    (hbad : ∀ p, bad p ↔ bad₁ p ∨ bad₂ p) : Reports (result.or rest) path bad := by
  rcases h₁ with ⟨rfl, hnone⟩ | ⟨p, hp, rfl⟩
  · rcases h₂ with ⟨rfl, hnone'⟩ | ⟨p, hp, rfl⟩
    · exact .none fun p hp => ((hbad p).mp hp).elim (hnone p) (hnone' p)
    · exact .inr ⟨p, (hbad p).mpr (.inr hp), rfl⟩
  · exact .inr ⟨p, (hbad p).mpr (.inl hp), rfl⟩

/-- An unknown key of an object is one of its first member, or of the others. -/
theorem unknownKey_cons_iff {known rest : JsonObject} {k : String} {v : JsonValue} {p : Path} :
    UnknownKey (.object known) (.object ((k, v) :: rest)) p ↔
      (∃ q, p = .key k :: q ∧ ((tryGetField foldKey known k = none ∧ q = []) ∨
        ∃ knownValue, tryGetField foldKey known k = some knownValue ∧ UnknownKey knownValue v q)) ∨
      UnknownKey (.object known) (.object rest) p := by
  constructor
  · rintro (⟨hmem, hnone⟩ | ⟨hmem, hknown, h⟩ | _)
    · rcases List.mem_cons.mp hmem with heq | hmem
      · cases heq
        exact .inl ⟨_, rfl, .inl ⟨hnone, rfl⟩⟩
      · exact .inr (.here hmem hnone)
    · rcases List.mem_cons.mp hmem with heq | hmem
      · cases heq
        exact .inl ⟨_, rfl, .inr ⟨_, hknown, h⟩⟩
      · exact .inr (.inMember hmem hknown h)
  · rintro (⟨q, rfl, ⟨hnone, rfl⟩ | ⟨knownValue, hknown, h⟩⟩ | h)
    · exact .here List.mem_cons_self hnone
    · exact .inMember List.mem_cons_self hknown h
    · cases h with
      | here hmem hnone => exact .here (List.mem_cons_of_mem _ hmem) hnone
      | inMember hmem hknown h => exact .inMember (List.mem_cons_of_mem _ hmem) hknown h

/-- An unknown key of two elements that are both objects. -/
def UnknownInElem (knownElem elem : JsonValue) (p : Path) : Prop :=
  ∃ known members, knownElem = .object known ∧ elem = .object members ∧
    UnknownKey (.object known) (.object members) p

theorem unknownInElem_object {known members : JsonObject} {p : Path} :
    UnknownInElem (.object known) (.object members) p ↔
      UnknownKey (.object known) (.object members) p := by
  constructor
  · rintro ⟨_, _, hknown, helem, h⟩
    cases hknown
    cases helem
    exact h
  · exact fun h => ⟨_, _, rfl, rfl, h⟩

/-- An unknown key of two arrays, the first of whose elements have the given index. -/
def UnknownFrom (index : ℕ) (knownElems elems : List JsonValue) (p : Path) : Prop :=
  ∃ n knownElem elem q, p = .index (index + n) :: q ∧ knownElems[n]? = some knownElem ∧
    elems[n]? = some elem ∧ UnknownInElem knownElem elem q

theorem unknownKey_array_iff {knownElems elems : List JsonValue} {p : Path} :
    UnknownKey (.array knownElems) (.array elems) p ↔ UnknownFrom 0 knownElems elems p := by
  constructor
  · rintro (_ | _ | ⟨helem, hknown, h⟩)
    exact ⟨_, _, _, _, by rw [Nat.zero_add], hknown, helem, _, _, rfl, rfl, h⟩
  · rintro ⟨n, _, _, q, rfl, hknown, helem, known, members, rfl, rfl, h⟩
    rw [Nat.zero_add]
    exact .inElem helem hknown h

theorem unknownFrom_cons_iff {index : ℕ} {knownElem elem : JsonValue}
    {knownElems elems : List JsonValue} {p : Path} :
    UnknownFrom index (knownElem :: knownElems) (elem :: elems) p ↔
      (∃ q, p = .index index :: q ∧ UnknownInElem knownElem elem q) ∨
        UnknownFrom (index + 1) knownElems elems p := by
  constructor
  · rintro ⟨n, _, _, q, rfl, hknown, helem, h⟩
    cases n with
    | zero =>
      cases hknown
      cases helem
      exact .inl ⟨q, rfl, h⟩
    | succ n =>
      refine .inr ⟨n, _, _, q, ?_, hknown, helem, h⟩
      rw [Nat.add_assoc, Nat.add_comm 1 n]
  · rintro (⟨q, rfl, h⟩ | ⟨n, _, _, q, rfl, hknown, helem, h⟩)
    · exact ⟨0, _, _, q, rfl, rfl, rfl, h⟩
    · refine ⟨n + 1, _, _, q, ?_, hknown, helem, h⟩
      rw [Nat.add_assoc, Nat.add_comm 1 n]

theorem findUnknownField_unknown {known rest : JsonObject} {path key : String} {value : JsonValue}
    (h : tryGetField foldKey known key = none) :
    findUnknownField known path ((key, value) :: rest) = some (fieldPath path [.key key]) := by
  simp only [findUnknownField, h]
  rfl

theorem findUnknownField_known {known rest : JsonObject} {path key : String}
    {value knownValue : JsonValue} (h : tryGetField foldKey known key = some knownValue) :
    findUnknownField known path ((key, value) :: rest) =
      (findInValue knownValue (fieldPath path [.key key]) value).or
        (findUnknownField known path rest) := by
  simp only [findUnknownField, h, fieldPath]
  cases findInValue knownValue (if path = "" then key else path ++ "." ++ key) value <;> rfl

theorem findInElems_cons (knownElem : JsonValue) (knownElems : List JsonValue) (path : String)
    (index : ℕ) (elem : JsonValue) (elems : List JsonValue) :
    findInElems (knownElem :: knownElems) path index (elem :: elems) =
      (findInElem knownElem (fieldPath path [.index index]) elem).or
        (findInElems knownElems path (index + 1) elems) := by
  simp only [findInElems, fieldPath]
  cases findInElem knownElem (path ++ "[" ++ toString index ++ "]") elem <;> rfl

/-! ### What it reports -/

mutual

/-- **The search**: it reports a key that is unknown, or there is none that it comes to. -/
theorem findUnknownField_reports (known : JsonObject) (path : String) (members : JsonObject) :
    Reports (findUnknownField known path members) path
      (UnknownKey (.object known) (.object members)) :=
  match members with
  | [] => .none fun p h => by
    rcases h with ⟨hmem, _⟩ | ⟨hmem, _, _⟩ | _ <;> cases hmem
  | (key, value) :: rest => by
    cases hfield : tryGetField foldKey known key with
    | none =>
      rw [findUnknownField_unknown hfield]
      exact .inr ⟨_, .here List.mem_cons_self hfield, rfl⟩
    | some knownValue =>
      rw [findUnknownField_known hfield]
      refine .or (.below (s := .key key) (findInValue_reports knownValue _ value) (fun _ => rfl)
        fun _ => Iff.rfl) (findUnknownField_reports known path rest) fun p => ?_
      rw [unknownKey_cons_iff, hfield]
      simp
termination_by structural members

theorem findInValue_reports (knownValue : JsonValue) (path : String) (value : JsonValue) :
    Reports (findInValue knownValue path value) path (UnknownKey knownValue value) :=
  match value with
  | .object members => by
    cases knownValue with
    | object known => exact findUnknownField_reports known path members
    | _ => exact .none fun _ h => by cases h
  | .array elems => by
    cases knownValue with
    | array knownElems =>
      exact (findInElems_reports knownElems path 0 elems).congr fun _ => unknownKey_array_iff
    | _ => exact .none fun _ h => by cases h
  | .null | .boolean _ | .number _ | .numberString _ | .string _ => .none fun _ h => by cases h
termination_by structural value

theorem findInElems_reports (knownElems : List JsonValue) (path : String) (index : ℕ)
    (elems : List JsonValue) :
    Reports (findInElems knownElems path index elems) path
      (UnknownFrom index knownElems elems) :=
  match elems with
  | [] => .none fun p h => by
    obtain ⟨n, _, _, q, _, _, helem, _⟩ := h
    cases helem
  | elem :: elems => by
    cases knownElems with
    | nil =>
      refine .none fun p h => ?_
      obtain ⟨n, _, _, q, _, hknown, _⟩ := h
      cases hknown
    | cons knownElem knownElems =>
      rw [findInElems_cons]
      exact .or (.below (s := .index index) (findInElem_reports knownElem _ elem) (fun _ => rfl)
        fun _ => Iff.rfl) (findInElems_reports knownElems path (index + 1) elems)
        fun p => unknownFrom_cons_iff
termination_by structural elems

theorem findInElem_reports (knownElem : JsonValue) (path : String) (elem : JsonValue) :
    Reports (findInElem knownElem path elem) path (UnknownInElem knownElem elem) :=
  match elem with
  | .object members => by
    cases knownElem with
    | object known =>
      exact (findUnknownField_reports known path members).congr fun _ => unknownInElem_object
    | _ => exact .none (by rintro p ⟨_, _, h, _⟩; cases h)
  | .null | .boolean _ | .number _ | .numberString _ | .string _ | .array _ =>
    .none (by rintro p ⟨_, _, _, h, _⟩; cases h)
termination_by structural elem

end

/-! ### The keys that slip past -/

/-- A key without counterpart that the check does not come to: in an object or an array that
stands against a value of another kind, or in an element of an array unless it and its
counterpart are objects. -/
inductive Slips : JsonValue → JsonValue → Prop
  | otherKind {knownValue v : JsonValue} :
      ¬SameKind knownValue v → HasKey v → Slips knownValue v
  | unreadElem {knownElems elems : List JsonValue} {n : ℕ} {v : JsonValue} :
      elems[n]? = some v →
        (∀ known members, knownElems[n]? = some (.object known) → v ≠ .object members) →
          Uncovered foldKey knownElems[n]? v → Slips (.array knownElems) (.array elems)
  | inMember {known members : JsonObject} {k : String} {knownValue v : JsonValue} :
      (k, v) ∈ members → tryGetField foldKey known k = some knownValue →
        Slips knownValue v → Slips (.object known) (.object members)
  | inElem {knownElems elems : List JsonValue} {n : ℕ} {known members : JsonObject} :
      elems[n]? = some (.object members) → knownElems[n]? = some (.object known) →
        Slips (.object known) (.object members) → Slips (.array knownElems) (.array elems)

/-- An unknown key is a key of the value, and it is not known. -/
theorem UnknownKey.absent {knownValue v : JsonValue} {p : Path} (h : UnknownKey knownValue v p) :
    ∃ q k, p = q ++ [.key k] ∧ KeyAt v q k ∧ resolve foldKey knownValue p = none := by
  induction h with
  | here hmem hnone =>
    refine ⟨[], _, rfl, keyAt_root hmem, ?_⟩
    show (tryGetField foldKey _ _).bind _ = none
    rw [hnone]
    rfl
  | inMember hmem hknown _ ih =>
    obtain ⟨q, k, rfl, hkey, hresolve⟩ := ih
    refine ⟨_ :: q, k, rfl, hkey.key hmem, ?_⟩
    show (tryGetField foldKey _ _).bind _ = none
    rw [hknown]
    exact hresolve
  | inElem helem hknown _ ih =>
    obtain ⟨q, k, rfl, hkey, hresolve⟩ := ih
    refine ⟨_ :: q, k, rfl, hkey.index helem, ?_⟩
    show (_[_]?).bind _ = none
    rw [hknown]
    exact hresolve

theorem UnknownKey.uncovered {knownValue v : JsonValue} {p : Path} (h : UnknownKey knownValue v p) :
    Uncovered foldKey (some knownValue) v := by
  obtain ⟨q, k, rfl, hkey, hresolve⟩ := h.absent
  exact ⟨q, k, hkey, hresolve⟩

theorem Slips.uncovered {knownValue v : JsonValue} (h : Slips knownValue v) :
    Uncovered foldKey (some knownValue) v := by
  induction h with
  | otherKind hkind hkey => exact uncovered_of_kind hkind hkey
  | unreadElem helem _ huncovered => exact .index helem huncovered
  | inMember hmem hknown _ ih => exact .key hmem hknown ih
  | inElem helem hknown _ ih => exact .index helem (hknown ▸ ih)

/-- A member whose value is all right when its key is known. -/
theorem unknownKey_or_slips_member {known members : JsonObject} {k : String} {v : JsonValue}
    (hmem : (k, v) ∈ members)
    (hvalue : ∀ knownValue, tryGetField foldKey known k = some knownValue →
      (∃ q, UnknownKey knownValue v q) ∨ Slips knownValue v) :
    (∃ q, UnknownKey (.object known) (.object members) q) ∨
      Slips (.object known) (.object members) := by
  cases hfield : tryGetField foldKey known k with
  | none => exact .inl ⟨[.key k], .here hmem hfield⟩
  | some knownValue =>
    rcases hvalue knownValue hfield with ⟨q, hq⟩ | hslips
    · exact .inl ⟨.key k :: q, .inMember hmem hfield hq⟩
    · exact .inr (.inMember hmem hfield hslips)

/-- An element with a key that has no counterpart: the check reads it only when it and its
counterpart are objects. -/
theorem unknownKey_or_slips_elem {knownElems elems : List JsonValue} {n : ℕ} {v : JsonValue}
    (helem : elems[n]? = some v) (huncovered : Uncovered foldKey knownElems[n]? v)
    (hobjects : ∀ known members, knownElems[n]? = some (.object known) → v = .object members →
      (∃ q, UnknownKey (.object known) v q) ∨ Slips (.object known) v) :
    (∃ q, UnknownKey (.array knownElems) (.array elems) q) ∨
      Slips (.array knownElems) (.array elems) := by
  by_cases hread : ∃ known members, knownElems[n]? = some (.object known) ∧ v = .object members
  · obtain ⟨known, members, hknown, rfl⟩ := hread
    rcases hobjects known members hknown rfl with ⟨q, hq⟩ | hslips
    · exact .inl ⟨.index n :: q, .inElem helem hknown hq⟩
    · exact .inr (.inElem helem hknown hslips)
  · refine .inr (.unreadElem helem (fun known members hknown heq => ?_) huncovered)
    exact hread ⟨known, members, hknown, heq⟩

/-- A key without counterpart is on the way of the check, or slips past; by induction on its
path. -/
theorem unknownKey_or_slips {v w : JsonValue} {p : Path} {k : String}
    (h : Reaches v (p ++ [.key k]) w) {knownValue : JsonValue}
    (hnone : resolve foldKey knownValue (p ++ [.key k]) = none) :
    (∃ q, UnknownKey knownValue v q) ∨ Slips knownValue v := by
  induction p generalizing v knownValue with
  | nil =>
    by_cases hkind : SameKind knownValue v
    case neg => exact .inr (.otherKind hkind ⟨[], k, w, h⟩)
    cases h with
    | key hmem _ =>
      cases hkind with
      | object known members =>
        refine unknownKey_or_slips_member hmem fun knownValue hfield => ?_
        have hbind : (tryGetField foldKey known k).bind (resolve foldKey · []) = none := hnone
        rw [hfield] at hbind
        cases hbind
  | cons s p ih =>
    by_cases hkind : SameKind knownValue v
    case neg => exact .inr (.otherKind hkind ⟨s :: p, k, w, h⟩)
    cases h with
    | @key members k₀ v _ _ hmem hreaches =>
      cases hkind with
      | object known =>
        refine unknownKey_or_slips_member hmem fun knownValue hfield => ih hreaches ?_
        have hbind : (tryGetField foldKey known k₀).bind
            (resolve foldKey · (p ++ [.key k])) = none := hnone
        rwa [hfield] at hbind
    | @index elems n v _ _ helem hreaches =>
      cases hkind with
      | array knownElems =>
        have hbind : knownElems[n]?.bind (resolve foldKey · (p ++ [.key k])) = none := hnone
        refine unknownKey_or_slips_elem helem ⟨p, k, ⟨w, hreaches⟩, hbind⟩ ?_
        intro known members hknown _
        rw [hknown] at hbind
        exact ih hreaches hbind

/-- **Every key without counterpart** is one that the check comes to, or slips past. -/
theorem uncovered_iff {knownValue v : JsonValue} :
    Uncovered foldKey (some knownValue) v ↔
      (∃ p, UnknownKey knownValue v p) ∨ Slips knownValue v := by
  constructor
  · rintro ⟨p, k, ⟨w, hreaches⟩, hnone⟩
    exact unknownKey_or_slips hreaches hnone
  · rintro (⟨p, h⟩ | h)
    · exact h.uncovered
    · exact h.uncovered

/-! ### Completeness -/

/-- What the check promises of two objects: nothing is found only when every key has a counterpart
at its path, and what is found is the path of a key without one. -/
def CompleteOn (known members : JsonObject) (path : String) : Prop :=
  (findUnknownField known path members = none → Covered foldKey (.object known) (.object members)) ∧
    ∀ reported, findUnknownField known path members = some reported →
      ∃ p k, KeyAt (.object members) p k ∧
        resolve foldKey (.object known) (p ++ [.key k]) = none ∧
        reported = fieldPath path (p ++ [.key k])

/-- **When the check is complete**: unless no key that it comes to is unknown, and one slips
past. -/
theorem findUnknownField_complete_iff (known members : JsonObject) (path : String) :
    CompleteOn known members path ↔
      (∃ p, UnknownKey (.object known) (.object members) p) ∨
        ¬Slips (.object known) (.object members) := by
  rcases findUnknownField_reports known path members with ⟨hresult, hnone⟩ | ⟨p, hp, hresult⟩
  · have hcovered : Covered foldKey (.object known) (.object members) ↔
        ¬Slips (.object known) (.object members) := by
      rw [covered_iff, uncovered_iff, not_or]
      exact and_iff_right fun ⟨p, hp⟩ => hnone p hp
    rw [CompleteOn, hresult, hcovered]
    constructor
    · exact fun h => .inr (h.1 rfl)
    · rintro (⟨p, hp⟩ | h)
      · exact absurd hp (hnone p)
      · exact ⟨fun _ => h, fun _ hsome => by cases hsome⟩
  · refine iff_of_true ⟨fun h => ?_, fun reported h => ?_⟩ (.inl ⟨p, hp⟩)
    · rw [hresult] at h
      cases h
    · rw [hresult] at h
      cases h
      obtain ⟨q, k, rfl, hkey, hresolve⟩ := hp.absent
      exact ⟨q, k, hkey, hresolve, rfl⟩

/-- A chunk with an entry whose scale is given by axis. -/
def stretchedChunk : JsonObject :=
  [("protocol_version", .number 1), ("type", .string "chunk"), ("generation_id", .string "gen-1"),
    ("assets", .array [.object [("category", .string "oak"),
      ("transform", .object [("location", .object [("x", .number 1), ("y", .number 2)]),
        ("yaw", .number 0), ("scale", .object [("x", .number 1), ("y", .number 2)])]),
      ("ground_snap", .boolean true), ("tags", .array [])]])]

/-- What it is imported as: the scale is zero. -/
def stretchedMessage : ChunkMessage := ⟨1, "chunk", "gen-1", [⟨"oak", ⟨⟨1, 2⟩, 0, 0⟩, true, []⟩]⟩

/-- **A scale by axis is not seen**: the keys of the scale are not known, and nothing is found. -/
theorem stretched_scale_unseen :
    strictDeserialize (chunkProperties plainEngine.toConversions) {} "chunk" stretchedChunk =
        .ok stretchedMessage ∧
      ¬CompleteOn (exportProperties (chunkProperties plainEngine.toConversions) stretchedMessage)
        stretchedChunk "" := by
  refine ⟨rfl, fun h => ?_⟩
  have hcovered := h.1 rfl
  have hkey : KeyAt (.object stretchedChunk)
      [.key "assets", .index 0, .key "transform", .key "scale"] "x" := by
    refine ⟨.number 1, .key (.tail _ (.tail _ (.tail _ (.head _)))) ?_⟩
    refine .index rfl (.key (.tail _ (.head _)) ?_)
    exact .key (.tail _ (.tail _ (.head _))) (.key (.head _) (.here _))
  cases hcovered _ _ hkey

end AetherForge.Plugin
