import AetherForge.Backend.Encode
import AetherForge.Plugin.Protocol

/-!
# Values on their way into the plugin

A value that the server encodes is imported into the plugin's structs, and the strict check finds
nothing in it that the struct does not have.  There is one rule for each kind of property, and one
for a struct whose properties are all filled.

* `Passes` — a value is imported, and all its fields are known;
* `passes_slice`, `passes_map`, `passes_struct` — the rules for composite values.
-/

namespace AetherForge.Plugin

open Go GoJson StructJson

/-! ### Values that pass -/

/-- A value is imported over `held` as `a`, which has all its fields. -/
structure Passes {α : Type} (κ : Kind α) (v : JsonValue) (held a : α) : Prop where
  load : κ.load v held = some a
  covers : Covers (κ.exportValue a) v

/-- The value that a text is read as. -/
abbrev read : Json → JsonValue := ofJson foldKey

/-- Values are imported into the properties of a table, which have all their fields. -/
def Fills {S : Type} (ps : List (Property S)) (vs : List JsonValue) (s t : S) : Prop :=
  loadAll ps vs s = some t ∧ List.Forall₂ (fun p v => Covers (p.exportValue t) v) ps vs

section Rules

variable {c : Conversions} (hc : c.Lawful) {number : ℚ → Json}

include hc in
theorem passes_float {q : ℚ} (h : ReadsBack number q) (held : ℚ) :
    Passes (.double c) (read (number q)) held q := by
  have hread : read (number q) = .number q := by
    have hdecode := h 0
    cases hv : number q with
    | int n =>
      rw [hv, decodeFloat64, toFloat64] at hdecode
      split at hdecode
      · exact congrArg JsonValue.number (Option.some.inj hdecode)
      · cases hdecode
    | dec r =>
      rw [hv, decodeFloat64, toFloat64] at hdecode
      split at hdecode
      · exact congrArg JsonValue.number (Option.some.inj hdecode)
      · cases hdecode
    | null =>
      -- `null` keeps what the destination holds
      have h₀ := h q
      have h₁ := h (q + 1)
      rw [hv] at h₁
      have hsame : q + 1 = q := Option.some.inj h₁
      exact absurd hsame (by simp)
    | _ =>
      rw [hv] at hdecode
      cases hdecode
  rw [hread]
  exact ⟨congrArg some (hc.number q), covers_scalar _ trivial⟩

theorem read_int {n : ℤ} (h : |n| ≤ 2 ^ 53) : read (.int n) = .number n :=
  congrArg JsonValue.number (Binary64.round_intCast h)

include hc in
/-- An `int64` arrives as the double that its digits are rounded to. -/
theorem passes_int64_rounded (n held : ℤ) :
    Passes (.int64 c) (read (.int n)) held (c.toInt64 (Binary64.round n)) := by
  refine ⟨?_, covers_scalar _ trivial⟩
  show some (c.toInt64 (c.asNumber (.number (Binary64.round n)))) = _
  rw [hc.number]

include hc in
theorem toInt64_round {n : ℤ} (h : |n| ≤ 2 ^ 53) : c.toInt64 (Binary64.round n) = n := by
  have hrange : InInt64 n := by
    rw [abs_le] at h
    constructor <;> omega
  rw [Binary64.round_intCast h, hc.int64 n hrange]

include hc in
theorem passes_int64 {n : ℤ} (h : |n| ≤ 2 ^ 53) (held : ℤ) :
    Passes (.int64 c) (read (.int n)) held n := by
  have hpasses := passes_int64_rounded hc n held
  rwa [toInt64_round hc h] at hpasses

include hc in
theorem passes_int32 {n : ℤ} (h : InInt32 n) (held : ℤ) :
    Passes (.int32 c) (read (.int n)) held n := by
  have habs : |n| ≤ 2 ^ 53 := by
    obtain ⟨hlo, hhi⟩ := h
    rw [abs_le]
    constructor <;> omega
  rw [read_int habs]
  refine ⟨?_, covers_scalar _ trivial⟩
  show some (wrap32 (c.toInt64 (c.asNumber (.number n)))) = some n
  rw [hc.number, hc.int64 n h.inInt64, wrap32_of_inInt32 h]

include hc in
theorem passes_string (s held : String) : Passes (.string c) (read (.str s)) held s :=
  ⟨congrArg some (hc.string s), covers_scalar _ trivial⟩

include hc in
theorem passes_bool (b held : Bool) : Passes (.bool c) (read (.bool b)) held b :=
  ⟨congrArg some (hc.boolean b), covers_scalar _ trivial⟩

theorem passes_null {α : Type} (κ : Kind α) (a : α) : Passes κ (read .null) a a :=
  ⟨rfl, covers_scalar _ trivial⟩

/-- A slice, which may be `nil`, into an empty array. -/
theorem passes_slice {α β : Type} {κ : Kind β} {initial : β} {encode : α → Json} {f : α → β}
    {s : Slice α} (h : ∀ a ∈ s.elems, Passes κ (read (encode a)) initial (f a)) :
    Passes (.array κ initial) (read (encodeSlice encode s)) [] (s.elems.map f) := by
  have helems : ∀ l : List α, (∀ a ∈ l, Passes κ (read (encode a)) initial (f a)) →
      importElems κ initial (l.map fun a => read (encode a)) [] = some (l.map f) ∧
        List.Forall₂ Covers ((l.map f).map κ.exportValue) (l.map fun a => read (encode a)) := by
    intro l
    induction l with
    | nil =>
      intro _
      exact ⟨rfl, .nil⟩
    | cons a l ih =>
      intro hl
      obtain ⟨ha, hl⟩ := List.forall_mem_cons.mp hl
      obtain ⟨hload, hcovers⟩ := ih hl
      refine ⟨?_, .cons ha.covers hcovers⟩
      have hhead : κ.load (read (encode a)) initial = some (f a) := ha.load
      simp only [List.map_cons, importElems, List.headD_nil, List.tail_nil, hhead, hload]
      rfl
  rcases s.eq_nil_or_make with hs | hs
  · rw [hs]
    exact passes_null _ _
  · obtain ⟨hload, hcovers⟩ := helems s.elems h
    have hread : read (encodeSlice encode s) =
        .array (s.elems.map fun a => read (encode a)) := by
      rw [hs]
      show JsonValue.array (ofElems foldKey (s.elems.map encode)) = _
      rw [ofElems_eq, List.map_map]
      rfl
    rw [hread]
    exact ⟨hload, covers_array hcovers⟩

/-- The entries of a map, imported and exported one by one. -/
theorem passes_entries {α : Type} (hc : c.Lawful) {κ : Kind α} {initial : α} {encode : α → Json}
    (hnull : ∀ a, encode a ≠ .null) {l : List (String × α)}
    (h : ∀ p ∈ l, p.1 ≠ "" ∧ Passes κ (read (encode p.2)) initial p.2)
    (hl : (l.map fun p => foldKey p.1).Nodup) (held : TMap α) :
    Passes (.map c κ initial foldKey) (.object (l.map fun p => (p.1, read (encode p.2)))) held
      ⟨l, hl⟩ := by
  have himport : importEntries κ initial (l.map fun p => (p.1, read (encode p.2))) = some l := by
    clear hl
    induction l with
    | nil => rfl
    | cons p l ih =>
      obtain ⟨⟨_, hp⟩, hrest⟩ := List.forall_mem_cons.mp h
      have hload := hp.load
      have hv := hnull p.2
      rw [List.map_cons]
      cases hvalue : encode p.2 with
      | null => exact absurd hvalue hv
      | _ =>
        rw [hvalue] at hload
        simp only [read, ofJson, Kind.load] at hload
        simp only [read, ofJson, importEntries, hload, ih hrest]
        rfl
  have hexport : (l.map fun p => (c.exportKey p.1, κ.exportValue p.2)) =
      l.map fun p => (p.1, κ.exportValue p.2) := by
    refine List.map_congr_left fun p hp => ?_
    rw [hc.key p.1 (h p hp).1]
  have hkeys : ((l.map fun p => (p.1, κ.exportValue p.2)).map fun m => foldKey m.1).Nodup := by
    rw [List.map_map]
    exact hl
  refine ⟨?_, ?_⟩
  · show (importEntries κ initial _).map FoldedMap.ofEntries = _
    rw [himport]
    exact congrArg some (FoldedMap.ofEntries_entries ⟨l, hl⟩)
  · show Covers (.object (FoldedMap.ofEntries (l.map fun p =>
      (c.exportKey p.1, κ.exportValue p.2)) : TMap JsonValue).entries) _
    rw [hexport, FoldedMap.entries_ofEntries hkeys]
    refine covers_object fun m hm => ?_
    obtain ⟨p, hp, rfl⟩ := List.mem_map.mp hm
    exact ⟨κ.exportValue p.2, tryGetField_of_mem hkeys (List.mem_map.mpr ⟨p, hp, rfl⟩),
      (h p hp).2.covers⟩

/-- A map with keys that stay distinct, into a map. -/
theorem passes_map {α : Type} [Inhabited α] (hc : c.Lawful) {κ : Kind α} {initial : α}
    (encode : α → Json) {m : GoMap α}
    (hkeys : ∀ k ∈ m.keys, k ≠ "") (hdistinct : Set.InjOn foldKey m.keys)
    (hnull : ∀ a, encode a ≠ .null)
    (h : ∀ k a, m.get? k = some a → Passes κ (read (encode a)) initial a) :
    ∃ t : TMap α, Passes (.map c κ initial foldKey) (read (encodeMap encode m)) .empty t ∧
      ∀ k a, (k, a) ∈ t.entries ↔ m.get? k = some a := by
  cases hn : m.isNil with
  | true =>
    refine ⟨.empty, ?_, fun k a => ?_⟩
    · rw [encodeMap, if_pos hn]
      exact passes_null _ _
    · rw [GoMap.get?, m.nil_entries hn]
      constructor <;> intro h <;> cases h
  | false =>
    have hfolded : ((sortedEntries m).map fun p => foldKey p.1).Nodup := by
      have hmap : ((sortedEntries m).map fun p => foldKey p.1) = m.keys.sort.map foldKey := by
        rw [← sortedEntries_keys, List.map_map]
        rfl
      rw [hmap]
      refine (Finset.sort_nodup _ _).map_on fun k hk k' hk' heq => ?_
      exact hdistinct ((Finset.mem_sort _).mp hk) ((Finset.mem_sort _).mp hk') heq
    have hentry : ∀ p ∈ sortedEntries m,
        p.1 ≠ "" ∧ Passes κ (read (encode p.2)) initial p.2 := by
      rintro ⟨k, a⟩ hp
      have hget := get?_of_mem_sortedEntries hp
      exact ⟨hkeys k (GoMap.mem_keys_iff.mpr (hget ▸ rfl)), h k a hget⟩
    refine ⟨⟨sortedEntries m, hfolded⟩, ?_, fun k a => mem_sortedEntries_iff⟩
    have hread : read (encodeMap encode m) =
        .object ((sortedEntries m).map fun p => (p.1, read (encode p.2))) := by
      rw [encodeMap, if_neg (by simp [hn]), read, ofJson_obj, List.map_map]
      · rfl
      · rw [List.map_map]
        exact hfolded
    rw [hread]
    exact passes_entries hc hnull hentry hfolded _

/-! ### Structs -/

theorem fills_nil {S : Type} (s : S) : Fills [] [] s s := ⟨rfl, .nil⟩

/-- A value that passes, and the rest of the properties, which leave its property alone. -/
theorem fills_cons {S α : Type} {name : String} {κ : Kind α} {get : S → α} {set : S → α → S}
    {ps : List (Property S)} {v : JsonValue} {vs : List JsonValue} {s t : S} {a : α}
    (hv : Passes κ v (get s) a) (ha : get t = a) (h : Fills ps vs (set s a) t) :
    Fills (.of name κ get set :: ps) (v :: vs) s t := by
  refine ⟨?_, .cons ?_ h.2⟩
  · show (((κ.load v (get s)).map (set s)).bind (loadAll ps vs)) = some t
    rw [hv.load]
    exact h.1
  · show Covers (κ.exportValue (get t)) v
    rw [ha]
    exact hv.covers

/-- The root of a frame whose members are those of a table. -/
theorem read_members {S : Type} {ps : List (Property S)} {members : List (String × Json)}
    (hps : Unambiguous foldKey ps) (hnames : members.map Prod.fst = ps.map (·.name)) :
    read (.obj members) = .object (named ps (members.map fun m => read m.2)) := by
  have hnodup : (members.map fun m => foldKey m.1).Nodup := by
    have hmap : (members.map fun m => foldKey m.1) = ps.map fun p => foldKey p.name := by
      rw [← Function.comp_def foldKey Prod.fst, ← List.map_map, hnames, List.map_map]
      rfl
    rw [hmap]
    exact hps
  rw [read, ofJson_obj foldKey hnodup, map_members_eq_named hnames]

/-- **A struct** whose properties are all filled. -/
theorem passes_struct {S : Type} {ps : List (Property S)} {members : List (String × Json)}
    {s t : S} (hps : Unambiguous foldKey ps) (hnames : members.map Prod.fst = ps.map (·.name))
    (h : Fills ps (members.map fun m => read m.2) s t) :
    Passes (.struct c foldKey ps) (read (.obj members)) s t := by
  rw [read_members hps hnames]
  refine ⟨?_, ?_⟩
  · show importProperties foldKey _ ps s = some t
    rw [importProperties_named hps h.2.length_eq]
    exact h.1
  · refine covers_object fun m hm => ?_
    obtain ⟨p, hp, hname, hcovers⟩ := exists_of_mem_named h.2 hm
    rw [hname]
    exact ⟨_, tryGetField_exportProperties hps hp t, hcovers⟩

/-! ### From the server -/

/-- A point as it arrives. -/
def Vec2.received (p : AetherForge.Vec2) : Vec2 := ⟨p.x, p.y⟩

def Transform.received (t : AetherForge.Transform) : Transform :=
  ⟨Vec2.received t.location, t.yaw, t.scale⟩

def AssetEntry.received (a : AetherForge.AssetEntry) : AssetEntry :=
  ⟨a.category, Transform.received a.transform, a.groundSnap, a.tags.elems⟩

theorem unambiguous_tables (c : Conversions) :
    Unambiguous foldKey (vec2Properties c) ∧ Unambiguous foldKey (transformProperties c) ∧
      Unambiguous foldKey (assetEntryProperties c) ∧ Unambiguous foldKey (statsProperties c) ∧
      Unambiguous foldKey (planProperties c) ∧ Unambiguous foldKey (chunkProperties c) ∧
      Unambiguous foldKey (completeProperties c) ∧ Unambiguous foldKey (errorProperties c) := by
  have hdecide : ∀ names : List String, (names.map foldKey).Nodup →
      ∀ {S : Type} (ps : List (Property S)), ps.map (·.name) = names → Unambiguous foldKey ps := by
    rintro _ h S ps rfl
    rwa [List.map_map] at h
  refine ⟨hdecide ["x", "y"] ?_ _ rfl, hdecide ["location", "yaw", "scale"] ?_ _ rfl,
    hdecide ["category", "transform", "ground_snap", "tags"] ?_ _ rfl,
    hdecide ["assets", "elapsed_ms", "llm_ms"] ?_ _ rfl,
    hdecide ["protocol_version", "type", "generation_id", "seed", "total_assets", "categories"]
      ?_ _ rfl,
    hdecide ["protocol_version", "type", "generation_id", "assets"] ?_ _ rfl,
    hdecide ["protocol_version", "type", "generation_id", "stats"] ?_ _ rfl,
    hdecide ["protocol_version", "type", "generation_id", "code", "message", "recoverable"]
      ?_ _ rfl⟩
  all_goals decide +kernel

variable (hc : c.Lawful)

include hc

theorem passes_vec2 {p : AetherForge.Vec2} (h : p.EachFloat (ReadsBack number)) (held : Vec2) :
    Passes (vec2Kind c) (read (encodeVec2 number p)) held (.received p) :=
  passes_struct (unambiguous_tables c).1 rfl
    (fills_cons (passes_float hc h.1 _) rfl (fills_cons (passes_float hc h.2 _) rfl (fills_nil _)))

theorem passes_transform {t : AetherForge.Transform} (h : t.EachFloat (ReadsBack number))
    (held : Transform) :
    Passes (.struct c foldKey (transformProperties c)) (read (encodeTransform number t)) held
      (.received t) :=
  passes_struct (unambiguous_tables c).2.1 rfl
    (fills_cons (passes_vec2 hc h.1 _) rfl (fills_cons (passes_float hc h.2.1 _) rfl
      (fills_cons (passes_float hc h.2.2 _) rfl (fills_nil _))))

theorem passes_assetEntry {a : AetherForge.AssetEntry}
    (h : a.transform.EachFloat (ReadsBack number)) :
    Passes (.struct c foldKey (assetEntryProperties c)) (read (encodeAssetEntry number a))
      AssetEntry.default (.received a) := by
  have htags : Passes (.array (.string c) "") (read (encodeSlice .str a.tags)) []
      (a.tags.elems.map id) :=
    passes_slice fun s _ => passes_string hc s _
  rw [List.map_id] at htags
  exact passes_struct (unambiguous_tables c).2.2.1 rfl
    (fills_cons (passes_string hc _ _) rfl (fills_cons (passes_transform hc h _) rfl
      (fills_cons (passes_bool hc _ _) rfl (fills_cons htags rfl (fills_nil _)))))

theorem passes_stats {st : Stats} (hassets : InInt32 st.assets) (helapsed : |st.elapsedMs| ≤ 2 ^ 53)
    (hllm : |st.llmMs| ≤ 2 ^ 53) (held : CompleteStats) :
    Passes (.struct c foldKey (statsProperties c)) (read (encodeStats st)) held
      ⟨st.assets, st.elapsedMs, st.llmMs⟩ :=
  passes_struct (unambiguous_tables c).2.2.2.1 rfl
    (fills_cons (passes_int32 hc hassets _) rfl (fills_cons (passes_int64 hc helapsed _) rfl
      (fills_cons (passes_int64 hc hllm _) rfl (fills_nil _))))

end Rules

end AetherForge.Plugin
