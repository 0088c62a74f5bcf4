import AetherForge.Library.JsonPrinting
import AetherForge.Backend.Encode

/-!
# Wire messages as text

`Decode` on the bytes of a frame, and `json.Marshal` as the bytes it writes.  `Decode` reads its
input twice: `json.Unmarshal` wants the whole of it to be one value, and the strict `json.Decoder`
takes the first value from it.

* `decodeData_eq` — both passes see the value that the whole text is;
* `codec_round_trip` — a marshalled message is decoded to itself.
-/

namespace AetherForge

open Go GoJson

/-! ### Decode -/

section Decode

variable (complain : Bytes → String) (explain : Option String → Json → String)

/-- `Decode` on bytes; `complain` is what the JSON package says about a text that is no value. -/
def decodeData (data : Bytes) : Except DecodeError Message :=
  match parseText data with
  | none => .error ⟨"protocol: invalid JSON: " ++ complain data, false⟩
  | some v =>
    match decodeHead v with
    | none => .error ⟨"protocol: invalid JSON: " ++ explain none v, false⟩
    | some head =>
      match head.protocolVersion with
      | none => .error ⟨"protocol: missing required field \"protocol_version\"", false⟩
      | some n =>
        if n ≠ Version then
          .error ⟨"protocol: protocol version mismatch: server speaks v" ++ toString Version ++
            ", message carries v" ++ toString n, true⟩
        else
          match decodeMessage head.type with
          | none => .error ⟨"protocol: unknown message type " ++ quote head.type, false⟩
          | some d =>
            match parseFirst data with
            | none =>
              .error ⟨"protocol: malformed " ++ quote head.type ++ " message: " ++ complain data,
                false⟩
            | some (w, _) =>
              match d w with
              | none =>
                .error ⟨"protocol: malformed " ++ quote head.type ++ " message: " ++
                  explain (some head.type) w, false⟩
              | some msg => .ok msg

/-- What the first pass sees of a text. -/
def frameOf (data : Bytes) : Frame :=
  match parseText data with
  | none => .error (complain data)
  | some v => .ok v

/-- A text that is one value begins with this value. -/
theorem parseFirst_of_parseText {data : Bytes} {v : Json} (h : parseText data = some v) :
    ∃ rest, parseFirst data = some (v, rest) := by
  rw [parseText] at h
  split at h
  · rename_i v' rest hfirst
    split at h
    · cases h
      exact ⟨rest, hfirst⟩
    · cases h
  · cases h

/-- **Both passes see the same value.** -/
theorem decodeData_eq (data : Bytes) :
    decodeData complain explain data = decode explain (frameOf complain data) := by
  cases hparse : parseText data with
  | none => simp only [decodeData, frameOf, hparse, decode]
  | some v =>
    obtain ⟨rest, hfirst⟩ := parseFirst_of_parseText hparse
    simp only [decodeData, frameOf, hparse, hfirst]
    rfl

end Decode

/-! ### Marshal -/

/-- How numbers are written: the number that stands for a `float64`, and the literal of a number
that is no integer. -/
structure NumberFormat where
  number : ℚ → Json
  literal : ℚ → Bytes

/-- A `float64` is written as a number that reads back to it. -/
def NumberFormat.Writes (F : NumberFormat) (q : ℚ) : Prop :=
  ReadsBack F.number q ∧ Printable F.literal 0 (F.number q)

/-- `json.Marshal`. -/
def marshal (F : NumberFormat) (m : Message) : Bytes :=
  printValue F.literal (encodeMessage F.number m)

section Printable

variable {literal : ℚ → Bytes}

theorem printable_map {α : Type} [Inhabited α] {d : ℕ} {encode : α → Json} {m : GoMap α}
    (h : ∀ k a, m.get? k = some a → Printable literal d (encode a)) :
    Printable literal (d + 1) (encodeMap encode m) := by
  rw [encodeMap]
  split
  · trivial
  · intro p hp
    obtain ⟨⟨k, a⟩, hentry, rfl⟩ := List.mem_map.mp hp
    exact h k a (get?_of_mem_sortedEntries hentry)

variable {number : ℚ → Json} {d : ℕ}

theorem printable_cons {k : String} {v : Json} {members : List (String × Json)}
    (hv : Printable literal d v) (h : Printable literal (d + 1) (.obj members)) :
    Printable literal (d + 1) (.obj ((k, v) :: members)) :=
  List.forall_mem_cons.mpr ⟨hv, h⟩

theorem printable_cons_scalar {k : String} {v : Json} {members : List (String × Json)}
    (hv : Printable literal 0 v) (h : Printable literal (d + 1) (.obj members)) :
    Printable literal (d + 1) (.obj ((k, v) :: members)) :=
  printable_cons (hv.mono (Nat.zero_le d)) h

theorem printable_nil : Printable literal (d + 1) (.obj []) := nofun

/-- What is asked of the literals of numbers. -/
def Printed (literal : ℚ → Bytes) (number : ℚ → Json) (q : ℚ) : Prop :=
  Printable literal 0 (number q)

theorem printable_vec2 {p : Vec2} (h : p.EachFloat (Printed literal number)) :
    Printable literal (d + 1) (encodeVec2 number p) :=
  printable_cons_scalar h.1 (printable_cons_scalar h.2 printable_nil)

theorem printable_bounds {b : Bounds} (h : b.EachFloat (Printed literal number)) :
    Printable literal (d + 2) (encodeBounds number b) :=
  printable_cons (printable_vec2 h.1) (printable_cons (printable_vec2 h.2) printable_nil)

theorem printable_transform {t : Transform} (h : t.EachFloat (Printed literal number)) :
    Printable literal (d + 2) (encodeTransform number t) :=
  printable_cons (printable_vec2 h.1)
    (printable_cons_scalar h.2.1 (printable_cons_scalar h.2.2 printable_nil))

theorem printable_assetEntry {a : AssetEntry}
    (h : a.transform.EachFloat (Printed literal number)) :
    Printable literal (d + 3) (encodeAssetEntry number a) := by
  have htags : Printable literal (d + 2) (encodeSlice .str a.tags) :=
    printable_slice fun _ _ => trivial
  exact printable_cons_scalar trivial (printable_cons (printable_transform h)
    (printable_cons_scalar trivial (printable_cons htags printable_nil)))

theorem printable_manifestEntry {e : ManifestEntry} (h : Printed literal number e.footprintRadius) :
    Printable literal (d + 1) (encodeManifestEntry number e) :=
  printable_cons_scalar h
    (printable_cons_scalar trivial (printable_cons_scalar trivial
      (printable_cons_scalar trivial printable_nil)))

theorem printable_stats (st : Stats) : Printable literal (d + 1) (encodeStats st) :=
  printable_cons_scalar trivial (printable_cons_scalar trivial
    (printable_cons_scalar trivial printable_nil))

theorem printable_envelope {version : ℤ} {type : String} {rest : List (String × Json)}
    (h : Printable literal (d + 1) (.obj rest)) :
    Printable literal (d + 1) (encodeEnvelope version type rest) :=
  printable_cons_scalar trivial (printable_cons_scalar trivial h)

/-- A message nests to depth five. -/
theorem printable_encodeMessage {m : Message} (h : m.EachFloat (Printed literal number)) :
    Printable literal 5 (encodeMessage number m) := by
  cases m with
  | hello m =>
    have hmanifest : Printable literal 4 (encodeMap (encodeManifestEntry number) m.manifest) :=
      printable_map fun k e he => printable_manifestEntry (h k e he)
    exact printable_envelope (printable_cons hmanifest printable_nil)
  | generate m =>
    have hbounds : Printable literal 5 (.obj [("bounds", encodeBounds number m.bounds)]) :=
      printable_cons (printable_bounds h) printable_nil
    refine printable_envelope (printable_cons_scalar trivial (printable_cons_scalar trivial ?_))
    cases m.seed with
    | none => exact hbounds
    | some n => exact printable_cons_scalar trivial hbounds
  | plan m =>
    have hcategories : Printable literal 4 (encodeMap .int m.categories) :=
      printable_map fun _ _ _ => trivial
    exact printable_envelope (printable_cons_scalar trivial (printable_cons_scalar trivial
      (printable_cons_scalar trivial (printable_cons hcategories printable_nil))))
  | chunk m =>
    have hassets : Printable literal 4 (encodeSlice (encodeAssetEntry number) m.assets) :=
      printable_slice fun a ha => printable_assetEntry (h a ha)
    exact printable_envelope (printable_cons_scalar trivial (printable_cons hassets printable_nil))
  | complete m =>
    exact printable_envelope (printable_cons_scalar trivial
      (printable_cons (printable_stats m.stats) printable_nil))
  | error m =>
    exact printable_envelope (printable_cons_scalar trivial (printable_cons_scalar trivial
      (printable_cons_scalar trivial (printable_cons_scalar trivial printable_nil))))
  | cancel m => exact printable_envelope (printable_cons_scalar trivial printable_nil)

end Printable

/-! ### Round trip -/

theorem Message.EachFloat.imp {P P' : ℚ → Prop} {m : Message} (h : m.EachFloat P)
    (himp : ∀ q, P q → P' q) : m.EachFloat P' := by
  have hvec2 : ∀ {p : Vec2}, p.EachFloat P → p.EachFloat P' :=
    fun hp => ⟨himp _ hp.1, himp _ hp.2⟩
  cases m with
  | hello m => exact fun k e he => himp _ (h k e he)
  | generate m => exact ⟨hvec2 h.1, hvec2 h.2⟩
  | chunk m => exact fun a ha => ⟨hvec2 (h a ha).1, himp _ (h a ha).2.1, himp _ (h a ha).2.2⟩
  | plan | complete | error | cancel => trivial

/-- A marshalled message is parsed as the value it was encoded as. -/
theorem parseText_marshal {F : NumberFormat} {m : Message} (h : m.EachFloat F.Writes) :
    parseText (marshal F m) = some (encodeMessage F.number m) := by
  have hprinted : m.EachFloat (Printed F.literal F.number) := h.imp fun _ hq => hq.2
  exact parseText_printValue ((printable_encodeMessage hprinted).mono (by decide))

/-- **A marshalled message is decoded to itself**, whatever its contents. -/
theorem codec_round_trip (complain : Bytes → String) (explain : Option String → Json → String)
    (F : NumberFormat) (m : Message) (hheader : m.header = (Version, m.discriminator))
    (hfloat : m.EachFloat F.Writes) (hint : m.EachInt InInt64) :
    decodeData complain explain (marshal F m) = .ok m := by
  rw [decodeData_eq, frameOf, parseText_marshal hfloat]
  exact decode_encodeMessage explain hheader (hfloat.imp fun _ hq => hq.1) hint

/-- Whole numbers as integer literals, and `0.5` for everything else. -/
def halvesFormat : NumberFormat := ⟨encodeFloat64, fun _ => ascii "0.5"⟩

theorem halvesFormat_writes {q : ℚ} (hq : InFloat64 q) (h : q.den = 1 ∨ q = 1 / 2) :
    halvesFormat.Writes q := by
  refine ⟨decodes_float64 hq, ?_⟩
  show Printable _ 0 (encodeFloat64 q)
  rcases h with h | rfl
  · rw [encodeFloat64, if_pos h]
    trivial
  · have hden : (1 / 2 : ℚ).den ≠ 1 := by decide +kernel
    rw [encodeFloat64, if_neg hden]
    refine ⟨⟨false, ascii "0", ascii "5", none⟩, ?_, rfl, ?_⟩
    · refine ⟨.inl rfl, List.all_eq_true.mp rfl, List.all_eq_true.mp rfl, ?_⟩
      intro _ _ h
      cases h
    have hvalue : (natOf (ascii "05") : ℚ) * (10 : ℚ) ^ (0 - (1 : ℤ)) = 1 / 2 := by
      have hnat : natOf (ascii "05") = 5 := rfl
      rw [hnat]
      norm_num
    exact congrArg Json.dec hvalue

/-- A chunk with a `nil` and an empty tag list. -/
def saplings : Chunk where
  protocolVersion := Version
  type := TypeChunk
  generationId := "gen-1"
  assets := .make [⟨"tree <oak>", ⟨⟨1 / 2, -3⟩, 90, 1⟩, true, .nil⟩,
    ⟨"rock", ⟨⟨0, 1 / 2⟩, 0, 2⟩, false, .make []⟩]

theorem codec_round_trip_saplings :
    decodeData (fun _ => "") (fun _ _ => "") (marshal halvesFormat (.chunk saplings)) =
      .ok (.chunk saplings) := by
  refine codec_round_trip _ _ halvesFormat (.chunk saplings) rfl ?_ trivial
  have hwrites : ∀ q ∈ ([1 / 2, -3, 90, 1, 0, 2] : List ℚ), halvesFormat.Writes q := by
    intro q hq
    have hspec : ∀ q ∈ ([1 / 2, -3, 90, 1, 0, 2] : List ℚ),
        InFloat64 q ∧ (q.den = 1 ∨ q = 1 / 2) := by decide +kernel
    exact halvesFormat_writes (hspec q hq).1 (hspec q hq).2
  simp only [List.forall_mem_cons] at hwrites
  obtain ⟨hhalf, hthree, hninety, hone, hzero, htwo, -⟩ := hwrites
  show ∀ a ∈ _ :: [_], _
  simp only [List.forall_mem_cons, List.not_mem_nil, false_implies, implies_true, and_true]
  exact ⟨⟨⟨hhalf, hthree⟩, hninety, hone⟩, ⟨hzero, hhalf⟩, hzero, htwo⟩

end AetherForge
