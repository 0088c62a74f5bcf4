import AetherForge.Plugin.EndToEnd

/-!
# Progress while a generation comes in

At any time between the plan and the last frame of a stream, whole or cut short, the panel's
progress says how much of the placement has come in.

* `progress_arrives` — the entries that have come in are the first of the placement, and the panel
  shows how many they are, and of how many.
-/

namespace AetherForge.Plugin

open Go GoJson Interaction Operation StructJson Transition

/-- **Progress.**  A request that a press of Generate sends is run by the server, which gets as far
as a plan.  In every order in which some of its frames have come in, in sequence from the first,
among load callbacks and ticks: the entries received are the first of those that were placed, in
their order; the panel shows their number, and that of all entries; and it shows the same number
twice exactly when all of them are there. -/
theorem progress_arrives {E : Engine} {F : NumberFormat} (hE : E.Lawful F) (T : TextFunctions)
    {D : Draws} {o : Orchestrator} (ho : o.place = place D)
    {manifest : TMap WireManifestEntry} (hkeys : ∀ p ∈ manifest.entries, p.1 ≠ "")
    {ans : StartAnswers} {ed₀ : Editor} {events₀ : List ModuleEvent} {past₀ : List ModuleAction}
    (hreach : exec (toStep (ModuleEvent.op E)) .start events₀ = some (ed₀.forge, past₀))
    {generationId prompt : String} {seed : Option ℤ} {bounds : WireBounds}
    (hsent : .sentGenerate generationId prompt seed bounds ∈ (onGenerateClicked T ans ed₀).2)
    {evs : List (Event Eff Resp)} {q : Run Unit}
    (ht : Trace (run o (requestOf generationId prompt seed bounds)) evs q)
    (hevs : ∀ ev ∈ evs, InRange ev)
    (hmanifest : ∀ man, ⟨Eff.storeSnapshot, man⟩ ∈ evs → Advertised manifest man)
    (hfloat : ∀ m ∈ sentMessages evs, m.EachFloat F.Writes)
    {p : Plan} (hp : .plan p ∈ sentMessages evs) {events : List ModuleEvent}
    (harrival : ∀ event ∈ events, event.arrival = true)
    (hframes : framesOf events <+: (sentMessages evs).map (marshal F))
    (hsome : framesOf events ≠ []) {ed : Editor} {os : List ModuleAction}
    (hrun : exec (toStep (arrivalOp E T)) (onGenerateClicked T ans ed₀).1 events = some (ed, os)) :
    ∃ man recipe placed entries, ⟨Eff.storeSnapshot, man⟩ ∈ evs ∧
      ⟨Eff.llmReturn, .ok (some recipe)⟩ ∈ evs ∧
      SeedFor (requestOf generationId prompt seed bounds) placed ∧
      place D (clampCounts recipe) placed bounds.sent man = .ok entries ∧
      entriesReceived os <+: entries.map AssetEntry.received ∧
      ed.panel.counts = ((entries.length : ℤ), ((entriesReceived os).length : ℤ)) ∧
      (ed.panel.receivedAssets = ed.panel.totalAssets ↔
        entriesReceived os = entries.map AssetEntry.received) := by
  obtain ⟨hid, hstart⟩ := onGenerateClicked_arriving hreach hsent
  obtain ⟨man, recipe, placed, entries, elapsed, llmElapsed, hman, hrecipe, hplaced, hplace, hpre,
    hheard, hfits⟩ := heard_stream hE ho hkeys hid ht hevs hmanifest hfloat hp
      (fun e he => by cases he)
  let req := requestOf generationId prompt seed bounds
  have hassets := chunksOf_assets o req entries
  -- the prefix of the placement, and what the panel counts, say everything
  suffices harrived : entriesReceived os <+: entries.map AssetEntry.received ∧
      ed.panel.counts = ((entries.length : ℤ), ((entriesReceived os).length : ℤ)) by
    obtain ⟨hinitial, hcounts⟩ := harrived
    refine ⟨man, recipe, placed, entries, hman, hrecipe, hplaced, hplace, hinitial, hcounts, ?_⟩
    obtain ⟨htotal, hreceived⟩ := Prod.mk.inj hcounts
    rw [hreceived, htotal]
    constructor
    · intro hsame
      refine hinitial.eq_of_length ?_
      rw [List.length_map]
      exact_mod_cast hsame
    · intro hall
      rw [hall, List.length_map]
  obtain ⟨ms, hms, hmarshal⟩ := List.prefix_map_iff.mp hframes
  have hheard' : ∀ m ∈ ms, Conveys generationId m (parseServerMessage E (marshal F m)) :=
    fun m hm => hheard m (hms.subset hm)
  have hstream := hms.trans hpre
  rw [streamMessages, chunkMessages_eq, ← List.cons_append, List.prefix_concat_iff] at hstream
  rcases hstream with rfl | hopening
  · -- every frame is there
    obtain ⟨hreceived, hcounts, -, -⟩ :=
      stream_arrives hid hstart harrival hmarshal hheard' (by rwa [hassets]) hrun
    rw [hassets] at hreceived hcounts
    refine ⟨hreceived ▸ List.prefix_rfl, hcounts.trans ?_⟩
    rw [hreceived, List.length_map]
    rfl
  · -- the plan is there, and the first of the chunks
    rcases List.prefix_cons_iff.mp hopening with rfl | ⟨tail, rfl, htail⟩
    · exact absurd hmarshal hsome
    obtain ⟨cs, hcs, rfl⟩ := List.prefix_map_iff.mp htail
    have hfirst := hcs.flatMap fun chunk : Chunk => chunk.assets.elems
    rw [hassets] at hfirst
    obtain ⟨hreceived, hcounts⟩ := opening_arrives hid hstart harrival hmarshal hheard'
      (lt_of_le_of_lt (by exact_mod_cast hfirst.length_le) hfits) hrun
    refine ⟨hreceived ▸ hfirst.map AssetEntry.received, hcounts.trans ?_⟩
    rw [hreceived, List.length_map]
    rfl

def plan? : Message → Option Plan
  | .plan p => some p
  | _ => none

/-- Of the shrubs, only the plan has come in. -/
theorem progress_arrives_shrub :
    ∃ ed os, ∃ entries : List AetherForge.AssetEntry,
      exec (toStep (arrivalOp plainEngine decimalTexts))
        (onGenerateClicked decimalTexts shrubStart (gladeEditor 7)).1 (shrubEvents.take 3) =
          some (ed, os) ∧
      entries.length = 1 ∧ entriesReceived os = [] ∧ ed.panel.counts = (1, 0) ∧
      entriesReceived os <+: entries.map AssetEntry.received ∧
      ¬ (entriesReceived os = entries.map AssetEntry.received) := by
  have htrace : Trace (run (.new evenDraws) shrubRequest) shrubPlay (.ret ()) := trace_play _ [] _
  have hfits : (sentMessages shrubPlay).all gladeMessage = true := by decide +kernel
  have hplans : (sentMessages shrubPlay).filterMap plan? ≠ [] := by decide +kernel
  have hkeys : ∀ p ∈ advertisedMeadow.entries, p.1 ≠ "" := by decide +kernel
  have hreach : exec (toStep (ModuleEvent.op plainEngine)) .start [] =
      some ((gladeEditor 7).forge, []) := rfl
  have hframes : framesOf (shrubEvents.take 3) <+: (sentMessages shrubPlay).map
      (marshal halvesFormat) := by
    have hfirst : framesOf (shrubEvents.take 3) <+: framesOf shrubEvents :=
      (List.take_prefix 3 shrubEvents).filterMap _
    rwa [shrubEvents_frames.1] at hfirst
  have hsome : framesOf (shrubEvents.take 3) ≠ [] := by decide +kernel
  obtain ⟨plan, hmem⟩ := List.exists_mem_of_ne_nil _ hplans
  obtain ⟨m, hm, heq⟩ := List.mem_filterMap.mp hmem
  obtain ⟨ed, os, hrun⟩ := exec_toStep (arrivalOp plainEngine decimalTexts)
    (onGenerateClicked decimalTexts shrubStart (gladeEditor 7)).1 (shrubEvents.take 3)
  cases m <;> cases heq
  obtain ⟨_, _, _, entries, _, _, _, _, hinitial, hcounts, hall⟩ :=
    progress_arrives (D := evenDraws) (plainEngine_lawful halvesFormat) decimalTexts rfl hkeys
      hreach shrubStart_sent htrace (inRange_play (by decide +kernel) gladeRecipe _)
      (fun man hman => snapshot_play hman ▸ advertised_shrub)
      (fun m hm => (gladeMessage_fits (List.all_eq_true.mp hfits m hm)).1) hm
      (fun event he => shrubEvents_frames.2 event (List.mem_of_mem_take he)) hframes hsome hrun
  have hnone : (exec (toStep (arrivalOp plainEngine decimalTexts))
      (onGenerateClicked decimalTexts shrubStart (gladeEditor 7)).1 (shrubEvents.take 3)).map
      (fun p => p.1.panel.counts) = some (1, 0) := by
    decide +kernel
  rw [hrun, Option.map_some, Option.some.injEq] at hnone
  obtain ⟨hlength, hreceived⟩ := Prod.mk.inj (hcounts.symm.trans hnone)
  refine ⟨ed, os, entries, hrun, by exact_mod_cast hlength, ?_, hnone, hinitial, fun h => ?_⟩
  · exact List.length_eq_zero_iff.mp (by exact_mod_cast hreceived)
  · obtain ⟨htotal, hthere⟩ := Prod.mk.inj hnone
    exact absurd (hthere.symm.trans ((hall.mpr h).trans htotal)) (by decide)

end AetherForge.Plugin
