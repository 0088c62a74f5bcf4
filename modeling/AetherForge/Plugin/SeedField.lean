import AetherForge.Plugin.CodecAgreement
import AetherForge.Plugin.Panel

/-!
# The seed on its way there and back

A seed is typed into the panel, sent as digits, placed with and echoed in the plan by the server,
parsed through a double by the client, and written into the seed field by the panel.

* `run_placesOnlyWith` — the server places with the seed of the request;
* `toInt64_round_iff` — the seeds that survive the double;
* `seed_reproduced_iff` — the seeds for which the field again denotes what was typed.
-/

namespace AetherForge.Plugin

open Go GoJson Interaction Operation Slicing StructJson

/-! ### Placement -/

section Placement

variable {o : Orchestrator} {req : Generate} {seed : ℤ}

/-- A generation depends on placement with this seed, and with no other. -/
def PlacesOnlyWith (o : Orchestrator) (req : Generate) (seed : ℤ) : Prop :=
  ∀ place, (∀ recipe bounds man, place recipe seed bounds man = o.place recipe seed bounds man) →
    run { o with place := place } req = run o req

/-- Streaming does not place. -/
theorem sendChunks_congr {o' : Orchestrator} (h : o'.chunkSize = o.chunkSize)
    (entries : List AetherForge.AssetEntry) (off : ℕ) :
    sendChunks o' req entries off = sendChunks o req entries off := by
  induction off using slices.induct o.chunkSize o.chunkSize_pos entries with
  | case1 off hoff ih =>
    rw [sendChunks, if_pos hoff, h, ih, sendChunks.eq_def o req entries off, if_pos hoff]
  | case2 off hoff =>
    rw [sendChunks, if_neg hoff, sendChunks.eq_def o req entries off, if_neg hoff]

/-- **The server places with the seed of the request.** -/
theorem run_placesOnlyWith (h : req.seed = some seed) : PlacesOnlyWith o req seed := by
  intro place hplace
  have hstream : ∀ man recipe start llmElapsed,
      placeAndStream { o with place := place } req man recipe seed start llmElapsed =
        placeAndStream o req man recipe seed start llmElapsed := by
    intro man recipe start llmElapsed
    have hchunks : ∀ entries off, sendChunks { o with place := place } req entries off =
        sendChunks o req entries off := sendChunks_congr rfl
    simp only [placeAndStream, hplace, stream, hchunks]
  have hafter : ∀ man start llmElapsed result,
      afterRecipe { o with place := place } req man start llmElapsed result =
        afterRecipe o req man start llmElapsed result := by
    intro man start llmElapsed result
    cases result with
    | error err => rfl
    | ok recipe =>
      simp only [afterRecipe, chooseSeed, h]
      exact hstream man _ start llmElapsed
  simp only [run_eq, runWithManifest_eq, hafter]

end Placement

/-! ### The double -/

/-- The seeds that come back: 53 bits times a power of two, and the one, if any, that the engine
makes of `2 ^ 63`, to which the last seeds are rounded. -/
def ComesBack (c : Conversions) (seed : ℤ) : Prop :=
  (∃ (m : ℤ) (k : ℕ), |m| ≤ 2 ^ 53 ∧ seed = m * 2 ^ k) ∨
    (2 ^ 63 - 512 ≤ seed ∧ c.toInt64 (2 ^ 63) = seed)

/-- The `int64`s that are rounded out of range. -/
theorem round_eq_two_pow_iff {n : ℤ} (h : InInt64 n) :
    Binary64.round n = 2 ^ 63 ↔ 2 ^ 63 - 512 ≤ n := by
  obtain ⟨hlo, hhi⟩ := h
  have hhi' : (n : ℚ) < 2 ^ 63 := by exact_mod_cast hhi
  have hlo' : (-2 ^ 63 : ℚ) ≤ n := by exact_mod_cast hlo
  constructor
  · intro hround
    -- once the number is known to be close, its last place is known
    have hfar := Binary64.abs_round_sub_le (q := n) (e := 11)
      (by rw [abs_lt]; norm_num; constructor <;> linarith) (by decide)
    rw [hround, abs_le] at hfar
    norm_num at hfar
    have hnear := Binary64.abs_round_sub_le (q := n) (e := 10)
      (by rw [abs_lt]; norm_num; constructor <;> linarith) (by decide)
    rw [hround, abs_le] at hnear
    norm_num at hnear
    have hle : (2 ^ 63 - 512 : ℚ) ≤ n := by linarith
    exact_mod_cast hle
  · intro hle
    have hle' : (2 ^ 63 - 512 : ℚ) ≤ n := by exact_mod_cast hle
    refine (Binary64.round_eq_zpow (e := 10) ?_ ?_ (by decide)).trans (by norm_num)
    · norm_num
      linarith
    · norm_num
      linarith

/-- **The seeds that survive the double.** -/
theorem toInt64_round_iff {c : Conversions} (hc : c.Lawful) {seed : ℤ} (hs : InInt64 seed) :
    c.toInt64 (Binary64.round seed) = seed ↔ ComesBack c seed := by
  have htop := round_eq_two_pow_iff hs
  rw [ComesBack, ← Binary64.round_intCast_iff]
  by_cases hround : Binary64.round seed = 2 ^ 63
  · have hne : Binary64.round seed ≠ seed := by
      intro heq
      rw [hround] at heq
      have : (2 ^ 63 : ℤ) = seed := by exact_mod_cast heq
      exact absurd hs.2 (by omega)
    rw [hround] at hne ⊢
    constructor
    · exact fun h => .inr ⟨htop.mp hround, h⟩
    · rintro (h | ⟨-, h⟩)
      · exact absurd h hne
      · exact h
  · obtain ⟨r, hr⟩ := Binary64.exists_round_intCast seed
    have habs : |Binary64.round seed| ≤ 2 ^ (63 : ℤ) := by
      refine Binary64.abs_round_le ?_ (by decide)
      obtain ⟨hlo, hhi⟩ := hs
      have : |seed| ≤ 2 ^ 63 := abs_le.mpr ⟨hlo, hhi.le⟩
      rw [← Int.cast_abs]
      exact_mod_cast this
    have hrange : InInt64 r := by
      rw [hr, ← Int.cast_abs] at habs
      have habs' : |r| ≤ 2 ^ 63 := by exact_mod_cast habs
      have hne : r ≠ 2 ^ 63 := by
        rintro rfl
        exact hround (by rw [hr]; norm_num)
      obtain ⟨hlo, hhi⟩ := abs_le.mp habs'
      exact ⟨hlo, lt_of_le_of_ne hhi hne⟩
    rw [hr, hc.int64 r hrange]
    constructor
    · exact fun h => .inl (by rw [h])
    · rintro (h | ⟨hle, -⟩)
      · exact_mod_cast h
      · exact absurd (htop.mpr hle) hround

/-! ### Pressing Generate -/

/-- Half of a double that is no tiny number is a double. -/
theorem inFloat64_half {m e : ℤ} (hm : |m| ≤ 2 ^ 53) (he : -1073 ≤ e)
    (hrange : |(m : ℚ) * 2 ^ e| ≤ 2 ^ 17) : InFloat64 (m * 2 ^ e / 2) := by
  refine ⟨?_, ?_⟩
  · have hbig : (2 : ℚ) ^ 17 < 2 ^ 1024 - 2 ^ 970 := by decide +kernel
    rw [Binary64.InRange, abs_div, abs_two]
    refine lt_of_le_of_lt ?_ hbig
    linarith [abs_nonneg ((m : ℚ) * 2 ^ e)]
  · have hshift : (m : ℚ) * 2 ^ e / 2 = m * 2 ^ (e - 1) := by
      rw [zpow_sub_one₀ two_ne_zero, mul_div_assoc, div_eq_mul_inv]
    rw [hshift]
    exact Binary64.round_mul_zpow hm (by omega)

/-- The corners of the placement region are doubles. -/
theorem boundsForArea_inFloat64 (areaMeters : ℚ) :
    (boundsForArea areaMeters).sent.EachFloat InFloat64 := by
  let x := max 10 (min areaMeters 1000) * 100
  have hlo : 1000 ≤ x := by
    have := le_max_left 10 (min areaMeters 1000)
    show 1000 ≤ max 10 (min areaMeters 1000) * 100
    linarith
  have hhi : x ≤ 100000 := by
    have := max_le (by norm_num : (10 : ℚ) ≤ 1000) (min_le_right areaMeters 1000)
    show max 10 (min areaMeters 1000) * 100 ≤ 100000
    linarith
  have hx : |x| = x := abs_of_pos (by linarith)
  have hexp : -1073 ≤ Binary64.exponent x := by
    have hlog : 0 ≤ Int.log 2 |x| := by
      refine (Int.zpow_le_iff_le_log (by decide) (by linarith)).mp ?_
      rw [zpow_zero]
      linarith
    rw [Binary64.exponent]
    omega
  have habs : |Binary64.round x| ≤ 2 ^ (17 : ℤ) := by
    refine Binary64.abs_round_le ?_ (by decide)
    norm_num
    linarith
  obtain ⟨m, hm, hround⟩ := Binary64.exists_mantissa x
  rw [hround] at habs
  have hpos : InFloat64 (Binary64.round x / 2) := by
    rw [hround]
    exact inFloat64_half hm hexp habs
  have hneg : InFloat64 (-(Binary64.round x / 2)) := by
    have hcast : -(Binary64.round x / 2) = ((-m : ℤ) : ℚ) * 2 ^ Binary64.exponent x / 2 := by
      rw [hround]
      push_cast
      ring
    rw [hcast]
    refine inFloat64_half (by rwa [abs_neg]) hexp ?_
    rw [Int.cast_neg, neg_mul, abs_neg]
    exact habs
  exact ⟨⟨hneg, hneg⟩, hpos, hpos⟩

/-- What pressing Generate sends. -/
theorem onGenerateClicked_sent {T : TextFunctions} {ans : StartAnswers} {ed : Editor}
    {generationId prompt : String} {seed : Option ℤ} {bounds : WireBounds}
    (h : .sentGenerate generationId prompt seed bounds ∈ (onGenerateClicked T ans ed).2) :
    generationId = ans.generationId ∧ seed = parseSeedField T ed.panel ∧
      bounds = boundsForArea (parseAreaField T ed.panel) := by
  rw [onGenerateClicked, panelStartGeneration_shows] at h
  split at h
  · cases h
  · exact startGeneration_sent h

/-! ### The plan -/

/-- A category of the server's manifest is one that the client has advertised. -/
def Advertised (manifest : TMap WireManifestEntry) (man : Manifest) : Prop :=
  ∀ k, (man.get? k).isSome → ∃ w, (k, w) ∈ manifest.entries

/-- The categories of a plan are those that the client has advertised, which differ in more than
their case. -/
theorem keysApart_of_advertised {manifest : TMap WireManifestEntry}
    (hkeys : ∀ p ∈ manifest.entries, p.1 ≠ "") {man : Manifest} (hman : Advertised manifest man)
    {recipe : Recipe} (hvalid : ValidRecipe man recipe) (req : Generate) (seed : ℤ)
    (entries : List AetherForge.AssetEntry) :
    KeysApart (.plan (planMessage req seed recipe entries)) := by
  have hadvertised : ∀ k ∈ (planCategories recipe.items.elems).keys,
      ∃ w, (k, w) ∈ manifest.entries := by
    intro k hk
    by_cases hmem : k ∈ recipe.items.elems.map (·.category)
    · obtain ⟨it, hit, rfl⟩ := List.mem_map.mp hmem
      exact hman _ (hvalid.known it hit)
    · have hnone : (planCategories recipe.items.elems).get? k = none :=
        fillCategories_get?_of_not_mem hmem
      rw [GoMap.mem_keys_iff, hnone] at hk
      cases hk
  refine ⟨fun k hk => ?_, fun k hk k' hk' heq => ?_⟩
  · obtain ⟨w, hw⟩ := hadvertised k hk
    exact hkeys _ hw
  · obtain ⟨w, hw⟩ := hadvertised k hk
    obtain ⟨w', hw'⟩ := hadvertised k' hk'
    exact congrArg Prod.fst (List.inj_on_of_nodup_map manifest.distinct hw hw' heq)

/-- A plan that a run hands over has the seed of the request, and is the plan of an accepted
recipe. -/
theorem plan_of_run {o : Orchestrator} {req : Generate} {evs : List (Event Eff Resp)}
    {q : Run Unit} (ht : Trace (run o req) evs q) {p : Plan} (hp : .plan p ∈ sentMessages evs)
    {seed : ℤ} (hseed : req.seed = some seed) :
    ∃ man recipe entries, ⟨Eff.storeSnapshot, man⟩ ∈ evs ∧ ValidRecipe man recipe ∧
      p = planMessage req seed recipe entries := by
  obtain ⟨man, recipe, s, entries, elapsed, llmElapsed, hman, -, hvalid, hs, -, hpre⟩ :=
    exists_stream_of_mem ht hp nofun
  rw [SeedFor, hseed] at hs
  subst hs
  refine ⟨man, clampCounts recipe, entries, hman, clampCounts_valid hvalid, ?_⟩
  rcases List.mem_cons.mp (hpre.subset hp) with heq | hrest
  · exact Message.plan.inj heq
  · rcases List.mem_append.mp hrest with hrest | hrest
    · obtain ⟨_, -, hchunk⟩ := List.mem_map.mp hrest
      cases hchunk
    · cases List.mem_singleton.mp hrest

/-! ### The whole way -/

/-- The seed is reproduced: the server places with it and with no other, and after the panel has
handled the plan the seed field denotes it, and pressing Generate sends it. -/
structure Reproduces (T : TextFunctions) (o : Orchestrator) (req : Generate) (plan : PlanMessage)
    (seed : ℤ) : Prop where
  placed : PlacesOnlyWith o req seed
  field : ∀ panel, parseSeedField T (handlePlan T plan panel) = some seed
  resent : ∀ panel forge ans generationId prompt sent bounds,
    .sentGenerate generationId prompt sent bounds ∈
      (onGenerateClicked T ans ⟨handlePlan T plan panel, forge⟩).2 → sent = some seed

/-- A field into which a number was written denotes it. -/
theorem parseSeedField_asNumber {T : TextFunctions} (hT : T.Lawful) {n : ℤ} (hn : InInt64 n)
    (panel : Panel) : parseSeedField T { panel with seedText := T.asNumber n } = some n := by
  show (if T.trimStartAndEnd (T.asNumber n) = "" then none
    else T.lexTryParseInt64 (T.trimStartAndEnd (T.asNumber n))) = _
  rw [hT.trim n hn, if_neg (hT.nonempty n hn), hT.parse n hn]

theorem reproduces_iff {T : TextFunctions} (hT : T.Lawful) {o : Orchestrator} {req : Generate}
    {plan : PlanMessage} (hplan : InInt64 plan.seed) {seed : ℤ} (hseed : req.seed = some seed) :
    Reproduces T o req plan seed ↔ plan.seed = seed := by
  constructor
  · intro h
    let panel : Panel := ⟨.connectedIdle, "", 0, 0, 0, "", "", ""⟩
    have hdenotes := parseSeedField_asNumber hT hplan (handlePlan T plan panel)
    exact Option.some.inj (hdenotes.symm.trans (h.field panel))
  · rintro rfl
    have hfield : ∀ panel, parseSeedField T (handlePlan T plan panel) = some plan.seed :=
      fun panel => parseSeedField_asNumber hT hplan (handlePlan T plan panel)
    refine ⟨run_placesOnlyWith hseed, hfield, ?_⟩
    intro panel forge ans generationId prompt sent bounds h
    rw [(onGenerateClicked_sent h).2.1]
    exact hfield panel

/-- The request that is sent. -/
def requestOf (generationId prompt : String) (seed : Option ℤ) (bounds : WireBounds) : Generate :=
  ⟨Version, TypeGenerate, generationId, prompt, seed, bounds.sent⟩

/-- **The seeds that are reproduced.**  Pressing Generate sends a frame that `Decode` takes for a
request with the seed that the field denotes; and whatever plan a run of the request hands over,
the client parses it, and the seed is reproduced exactly when a double keeps it. -/
theorem seed_reproduced_iff (complain : Bytes → String) (explain : Option String → Json → String)
    {print : ℚ → Json} (hprint : Prints print) {E : Engine} {F : NumberFormat} (hE : E.Lawful F)
    (hcast : ∀ q, InInt64 (E.toInt64 q)) {T : TextFunctions} (hT : T.Lawful) {D : Draws}
    {o : Orchestrator} (ho : o.place = place D) {ed : Editor} {seed : ℤ}
    (hfield : parseSeedField T ed.panel = some seed) {ans : StartAnswers}
    {generationId prompt : String} {sent : Option ℤ} {bounds : WireBounds}
    (hsent : .sentGenerate generationId prompt sent bounds ∈ (onGenerateClicked T ans ed).2) :
    DecodedAs complain explain
      (serializeGenerate E.toConversions print generationId prompt sent bounds)
      (.generate (requestOf generationId prompt (some seed) bounds)) ∧
    ∀ manifest : TMap WireManifestEntry, (∀ p ∈ manifest.entries, p.1 ≠ "") → ∀ evs q,
      Trace (run o (requestOf generationId prompt (some seed) bounds)) evs q →
      (∀ ev ∈ evs, InRange ev) →
      (∀ man, ⟨Eff.storeSnapshot, man⟩ ∈ evs → Advertised manifest man) →
      ∀ p, .plan p ∈ sentMessages evs →
        ∃ plan, parseServerMessage E (marshal F (.plan p)) = .plan plan ∧
          (Reproduces T o (requestOf generationId prompt (some seed) bounds) plan seed ↔
            ComesBack E.toConversions seed) := by
  obtain ⟨rfl, rfl, rfl⟩ := onGenerateClicked_sent hsent
  rw [hfield]
  have hrange : InInt64 seed := by
    unfold parseSeedField at hfield
    split at hfield
    · cases hfield
    · exact hT.range _ _ hfield
  refine ⟨?_, ?_⟩
  · refine serializeGenerate_decoded complain explain hprint ?_ (boundsForArea_inFloat64 _)
    rintro n ⟨⟩
    exact hrange
  · intro manifest hkeys evs q ht hevs hmanifest p hp
    obtain ⟨man, recipe, entries, hman, hvalid, heq⟩ := plan_of_run ht hp rfl
    have hapart : KeysApart (.plan p) := by
      rw [heq]
      exact keysApart_of_advertised hkeys (hmanifest man hman) hvalid _ seed entries
    have hemitted := run_emits o _ ho evs q hevs ht _ hp
    obtain ⟨root, hdata, hroot⟩ := hE.reads (.plan p) trivial
    obtain ⟨received, hparse, -⟩ :=
      parse_plan_rounded hE hdata hemitted ans.generationId_ne hapart hroot
    refine ⟨_, hparse, ?_⟩
    have hseed : p.seed = seed := by
      rw [heq]
      rfl
    rw [reproduces_iff hT (hcast _) rfl, hseed]
    exact toInt64_round_iff hE.toLawful hrange

/-- An engine whose cast of a number that is out of range gives the least `int64`. -/
def castingEngine : Engine :=
  { plainEngine with
    toInt64 := fun q =>
      if InInt64 (plainEngine.toInt64 q) then plainEngine.toInt64 q else -2 ^ 63 }

theorem castingEngine_lawful (F : NumberFormat) : castingEngine.Lawful F := by
  have h := plainEngine_lawful F
  refine ⟨⟨h.number, h.string, h.boolean, fun n hn => ?_, h.key⟩, h.reads, h.int32, h.text⟩
  show (if InInt64 (plainEngine.toInt64 n) then plainEngine.toInt64 n else -2 ^ 63) = n
  rw [h.int64 n hn, if_pos hn]

theorem castingEngine_range (q : ℚ) : InInt64 (castingEngine.toInt64 q) := by
  show InInt64 (if InInt64 (plainEngine.toInt64 q) then plainEngine.toInt64 q else -2 ^ 63)
  split
  · assumption
  · decide

/-- Numbers in decimal digits, and nothing to trim. -/
def decimalTexts : TextFunctions where
  trimStartAndEnd s := s
  lexTryParseInt64 s :=
    match parseText (s.toList.map fun c => c.toNat.toUInt8) with
    | some (.int n) => if InInt64 n then some n else none
    | _ => none
  lexTryParseDouble _ := none
  asNumber n := String.ofList ((if n < 0 then ['-'] else []) ++ Nat.toDigits 10 n.natAbs)

theorem decimalTexts_lawful : decimalTexts.Lawful := by
  have hparse : ∀ n, InInt64 n →
      decimalTexts.lexTryParseInt64 (decimalTexts.asNumber n) = some n := by
    intro n hn
    have hbytes : ((decimalTexts.asNumber n).toList.map fun c => c.toNat.toUInt8) = intText n := by
      show (String.ofList _).toList.map _ = _
      rw [String.toList_ofList, List.map_append, intText]
      split <;> rfl
    have hprintable : Printable (fun _ => []) maxNestingDepth (.int n) := trivial
    have htext : parseText (intText n) = some (.int n) := parseText_printValue hprintable
    show (match parseText _ with
      | some (.int n) => if InInt64 n then some n else none
      | _ => none) = some n
    rw [hbytes, htext]
    exact if_pos hn
  refine ⟨?_, fun _ _ => rfl, ?_, hparse⟩
  · intro text n h
    simp only [decimalTexts] at h
    split at h
    · split at h
      · cases h
        assumption
      · cases h
    · cases h
  · intro n hn hempty
    have hsome := hparse n hn
    have hnone : decimalTexts.lexTryParseInt64 "" = none := by decide +kernel
    rw [hempty, hnone] at hsome
    cases hsome

/-- A glade is asked for with a seed. -/
def gladeStart : StartAnswers := ⟨true, true, "0123ABCD4567", ⟨none, none⟩, fun _ => true⟩

def gladeEditor (seed : ℤ) : Editor :=
  ⟨⟨.connectedIdle, "", 0, 0, 0, "a glade", decimalTexts.asNumber seed, ""⟩, .start⟩

def gladeRequestOf (seed : ℤ) : Generate :=
  requestOf "gen-0123abcd" "a glade" (some seed) (boundsForArea 70)

theorem gladeEditor_field {seed : ℤ} (h : InInt64 seed) :
    parseSeedField decimalTexts (gladeEditor seed).panel = some seed :=
  parseSeedField_asNumber decimalTexts_lawful h (gladeEditor seed).panel

theorem gladeEditor_sent {seed : ℤ} (h : InInt64 seed) :
    .sentGenerate "gen-0123abcd" "a glade" (some seed) (boundsForArea 70) ∈
      (onGenerateClicked decimalTexts gladeStart (gladeEditor seed)).2 := by
  rw [onGenerateClicked, gladeEditor_field h, panelStartGeneration_shows]
  exact List.mem_append_right _ (List.mem_append_right _ (List.mem_singleton.mpr rfl))

/-- What the server does about it. -/
def gladeEvents (seed : ℤ) : List (Event Eff Resp) :=
  (play (steadyAnswers meadowManifest gladeRecipe) []
    (run (.new evenDraws) (gladeRequestOf seed))).1

def advertisedMeadow : TMap WireManifestEntry :=
  ⟨[("shrub", ⟨1, true, true, "Shrub"⟩), ("dog", ⟨2, true, false, "Dog"⟩)], by decide +kernel⟩

theorem advertised_meadow : Advertised advertisedMeadow meadowManifest := by
  have hkeys : ∀ k ∈ meadowManifest.keys, k ∈ advertisedMeadow.entries.map Prod.fst := by
    decide +kernel
  intro k hk
  obtain ⟨⟨_, w⟩, hw, rfl⟩ := List.mem_map.mp (hkeys k (GoMap.mem_keys_iff.mpr hk))
  exact ⟨w, hw⟩

def isPlan : Message → Bool
  | .plan _ => true
  | _ => false

theorem exists_plan {ms : List Message} (h : ms.any isPlan = true) : ∃ p, .plan p ∈ ms := by
  obtain ⟨m, hm, hplan⟩ := List.any_eq_true.mp h
  cases m with
  | plan p => exact ⟨p, hm⟩
  | _ => cases hplan

/-- A plan of the glade is parsed with the seed that the typed one is rounded to. -/
theorem gladeEvents_plan {seed : ℤ} (h : (sentMessages (gladeEvents seed)).any isPlan = true) :
    ∃ p plan, .plan p ∈ sentMessages (gladeEvents seed) ∧
      parseServerMessage castingEngine (marshal halvesFormat (.plan p)) = .plan plan ∧
      plan.seed = castingEngine.toInt64 (Binary64.round seed) := by
  have htrace : Trace (run (.new evenDraws) (gladeRequestOf seed)) (gladeEvents seed) (.ret ()) :=
    trace_play _ [] _
  obtain ⟨p, hp⟩ := exists_plan h
  obtain ⟨man, recipe, entries, hman, hvalid, heq⟩ := plan_of_run htrace hp rfl
  have hmeadow : man = meadowManifest := snapshot_play hman
  have hapart : KeysApart (.plan p) := by
    rw [heq]
    refine keysApart_of_advertised ?_ (hmeadow ▸ advertised_meadow) hvalid _ seed entries
    decide +kernel
  have hemitted := run_emits (D := evenDraws) (.new evenDraws) _ rfl _ _
    (inRange_play (by decide +kernel) gladeRecipe _) htrace _ hp
  have hE := castingEngine_lawful halvesFormat
  obtain ⟨root, hdata, hroot⟩ := hE.reads (.plan p) trivial
  obtain ⟨received, hparse, -⟩ :=
    parse_plan_rounded hE hdata hemitted gladeStart.generationId_ne hapart hroot
  refine ⟨p, _, hp, hparse, ?_⟩
  rw [heq]
  rfl

theorem seed_reproduced_iff_glade :
    ∃ p plan, Trace (run (.new evenDraws) (gladeRequestOf (3 * 2 ^ 60)))
        (gladeEvents (3 * 2 ^ 60)) (.ret ()) ∧
      .plan p ∈ sentMessages (gladeEvents (3 * 2 ^ 60)) ∧
      parseServerMessage castingEngine (marshal halvesFormat (.plan p)) = .plan plan ∧
      Reproduces decimalTexts (.new evenDraws) (gladeRequestOf (3 * 2 ^ 60)) plan (3 * 2 ^ 60) := by
  have hrange : InInt64 (3 * 2 ^ 60) := by decide
  obtain ⟨_, hruns⟩ := seed_reproduced_iff (D := evenDraws) (fun _ => "") (fun _ _ => "")
    prints_encodeFloat64 (castingEngine_lawful halvesFormat) castingEngine_range
    decimalTexts_lawful (o := .new evenDraws) rfl (gladeEditor_field hrange)
    (gladeEditor_sent hrange)
  have htrace : Trace (run (.new evenDraws) (gladeRequestOf (3 * 2 ^ 60)))
      (gladeEvents (3 * 2 ^ 60)) (.ret ()) := trace_play _ [] _
  have hplan : (sentMessages (gladeEvents (3 * 2 ^ 60))).any isPlan = true := by decide +kernel
  obtain ⟨p, hp⟩ := exists_plan hplan
  obtain ⟨plan, hparse, hiff⟩ := hruns advertisedMeadow (by decide +kernel) _ _ htrace
    (inRange_play (by decide +kernel) gladeRecipe _)
    (fun man hman => snapshot_play hman ▸ advertised_meadow) p hp
  exact ⟨p, plan, htrace, hp, hparse, hiff.mpr (.inl ⟨3, 60, by decide, rfl⟩)⟩

/-- **A seed of 54 bits comes back as another one.** -/
theorem odd_seed_not_reproduced :
    parseSeedField decimalTexts (gladeEditor (2 ^ 53 + 1)).panel = some (2 ^ 53 + 1) ∧
    .sentGenerate "gen-0123abcd" "a glade" (some (2 ^ 53 + 1)) (boundsForArea 70) ∈
      (onGenerateClicked decimalTexts gladeStart (gladeEditor (2 ^ 53 + 1))).2 ∧
    DecodedAs (fun _ => "") (fun _ _ => "")
      (serializeGenerate castingEngine.toConversions encodeFloat64 "gen-0123abcd" "a glade"
        (some (2 ^ 53 + 1)) (boundsForArea 70)) (.generate (gladeRequestOf (2 ^ 53 + 1))) ∧
    ∃ p plan, Trace (run (.new evenDraws) (gladeRequestOf (2 ^ 53 + 1)))
        (gladeEvents (2 ^ 53 + 1)) (.ret ()) ∧
      .plan p ∈ sentMessages (gladeEvents (2 ^ 53 + 1)) ∧
      parseServerMessage castingEngine (marshal halvesFormat (.plan p)) = .plan plan ∧
      ∀ panel, parseSeedField decimalTexts (handlePlan decimalTexts plan panel) =
        some (2 ^ 53) := by
  have hrange : InInt64 (2 ^ 53 + 1) := by decide
  refine ⟨gladeEditor_field hrange, gladeEditor_sent hrange, ?_, ?_⟩
  · refine serializeGenerate_decoded _ _ prints_encodeFloat64 ?_ (boundsForArea_inFloat64 70)
    rintro n ⟨⟩
    exact hrange
  · have hany : (sentMessages (gladeEvents (2 ^ 53 + 1))).any isPlan = true := by decide +kernel
    obtain ⟨p, plan, hp, hparse, hseed⟩ := gladeEvents_plan hany
    have hround : castingEngine.toInt64 (Binary64.round ((2 ^ 53 + 1 : ℤ) : ℚ)) = 2 ^ 53 := by
      decide +kernel
    rw [hround] at hseed
    refine ⟨p, plan, trace_play _ [] _, hp, hparse, fun panel => ?_⟩
    have hplan : InInt64 plan.seed := by
      rw [hseed]
      decide
    rw [← hseed]
    exact parseSeedField_asNumber decimalTexts_lawful hplan (handlePlan decimalTexts plan panel)

end AetherForge.Plugin
