import AetherForge.Backend.Pipeline

/-!
# The messages of one generation

Whatever the surroundings answer, the messages that `run` hands to the Sender are a prefix of
one error, or of the full stream `plan, chunk*, complete` of an accepted recipe; and when
nothing interferes (the context is live at every test and no Send fails) a run that returns has
handed over the whole of it.

`streamLanguage` is that language, with what the stream is computed from; `pipeline` observes a
run, with a restriction on the manifests and recipes that the surroundings answer with.  Each
stage of the pipeline has one lemma here, and `run_concludes` chains them.
-/

namespace AetherForge

open Go Interaction Slicing

/-! ### What is observed -/

/-- The message an event hands to the Sender. -/
def handed : Event Eff Resp → Option Message
  | ⟨.send msg, _⟩ => some msg
  | _ => none

/-- Nothing interferes: the context is live when tested, and Send succeeds. -/
def Undisturbed : Event Eff Resp → Prop
  | ⟨.ctxErr, cancelled⟩ => cancelled = false
  | ⟨.ctxDone, done⟩ => done = false
  | ⟨.send _, ok⟩ => ok = true
  | _ => True

/-- Snapshots of the store satisfy `okMan` and recipes from the model satisfy `okRecipe`. -/
def AnswersFrom (okMan : Manifest → Prop) (okRecipe : Recipe → Prop) : Event Eff Resp → Prop
  | ⟨.storeSnapshot, man⟩ => okMan man
  | ⟨.llmReturn, .ok (some recipe)⟩ => okRecipe recipe
  | _ => True

/-- The messages handed to the Sender, in order. -/
def sentMessages (evs : List (Event Eff Resp)) : List Message := evs.filterMap handed

def pipeline (okMan : Manifest → Prop) (okRecipe : Recipe → Prop) :
    Observation Eff Resp Message :=
  ⟨handed, Undisturbed, AnswersFrom okMan okRecipe⟩

/-- The seed a generation runs with: the request's, or one of 53 bits. -/
def SeedFor (req : Generate) (seed : ℤ) : Prop :=
  match req.seed with
  | some s => seed = s
  | none => 0 ≤ seed ∧ seed < 2 ^ 53

def chunkMessages (o : Orchestrator) (req : Generate) (entries : List AssetEntry) (off : ℕ) :
    List Message :=
  (slices o.chunkSize o.chunkSize_pos entries off).map fun assets =>
    .chunk (chunkMessage req assets)

/-- The full stream of a recipe that was clamped and placed. -/
def streamMessages (o : Orchestrator) (req : Generate) (recipe : Recipe) (seed : ℤ)
    (entries : List AssetEntry) (elapsed llmElapsed : ℤ) : List Message :=
  .plan (planMessage req seed recipe entries) ::
    (chunkMessages o req entries 0 ++ [.complete (completeMessage req entries elapsed llmElapsed)])

/-- One error of this generation. -/
def errorLanguage (req : Generate) : Set (List Message) :=
  {ms | ∃ code text, ms = [errorMessage req.generationId code text true]}

/-- The message that ends a stream, whatever the clock says. -/
def completeLanguage (req : Generate) (entries : List AssetEntry) (llmElapsed : ℤ) :
    Set (List Message) :=
  {ms | ∃ elapsed, ms = [.complete (completeMessage req entries elapsed llmElapsed)]}

/-- The full streams of accepted recipes. -/
def streamLanguage (o : Orchestrator) (req : Generate) (okMan : Manifest → Prop)
    (okRecipe : Recipe → Prop) : Set (List Message) :=
  {ms | ∃ man recipe seed entries elapsed llmElapsed, okMan man ∧ okRecipe recipe ∧
    ValidRecipe man recipe ∧ SeedFor req seed ∧
    o.place (clampCounts recipe) seed req.bounds man = .ok entries ∧
    ms = streamMessages o req (clampCounts recipe) seed entries elapsed llmElapsed}

section Stages

variable {okMan : Manifest → Prop} {okRecipe : Recipe → Prop}
variable (o : Orchestrator) (req : Generate)

theorem completeLanguage_nonempty (entries : List AssetEntry) (llmElapsed : ℤ) :
    (completeLanguage req entries llmElapsed).Nonempty := ⟨_, 0, rfl⟩

theorem errorLanguage_nonempty : (errorLanguage req).Nonempty := ⟨_, "", "", rfl⟩

/-! ### Deliveries -/

theorem delivers_send (msg : Message) : Delivers (pipeline okMan okRecipe) {[msg]} (send msg) := by
  have hmsg : ∀ ok, (pipeline okMan okRecipe).message ⟨.send msg, ok⟩ = some msg := fun _ => rfl
  have hdone : ∀ done, (pipeline okMan okRecipe).message ⟨.ctxDone, done⟩ = none := fun _ => rfl
  -- the traces of `send`: the test, and after a negative test the hand-over
  have htrace : ∀ evs q, Trace (send msg) evs q →
      (evs = [] ∧ q = send msg) ∨ (evs = [⟨.ctxDone, true⟩] ∧ q = .ret false) ∨
        (evs = [⟨.ctxDone, false⟩] ∧ q = .call (.send msg) .ret) ∨
          ∃ ok, evs = [⟨.ctxDone, false⟩, ⟨.send msg, ok⟩] ∧ q = .ret ok := by
    intro evs q ht
    rcases trace_call_iff.mp ht with ⟨rfl, hq⟩ | ⟨done, evs', rfl, ht'⟩
    · exact .inl ⟨rfl, hq⟩
    · cases done with
      | true =>
        obtain ⟨rfl, hq⟩ := trace_ret_iff.mp ht'
        exact .inr (.inl ⟨rfl, hq⟩)
      | false =>
        rcases trace_call_iff.mp ht' with ⟨rfl, hq⟩ | ⟨ok, evs'', rfl, ht''⟩
        · exact .inr (.inr (.inl ⟨rfl, hq⟩))
        · obtain ⟨rfl, hq⟩ := trace_ret_iff.mp ht''
          exact .inr (.inr (.inr ⟨ok, rfl, hq⟩))
  constructor
  · intro evs q _ ht
    refine ⟨[msg], rfl, ?_⟩
    rcases htrace evs q ht with ⟨rfl, _⟩ | ⟨rfl, _⟩ | ⟨rfl, _⟩ | ⟨ok, rfl, _⟩
    · exact List.nil_prefix
    · exact List.nil_prefix
    · exact List.nil_prefix
    · exact List.prefix_rfl
  · intro evs _ ht
    rcases htrace evs _ ht with ⟨_, hq⟩ | ⟨_, hq⟩ | ⟨_, hq⟩ | ⟨ok, rfl, _⟩
    · cases hq
    · cases hq
    · cases hq
    · rfl
  · intro evs b _ hsm ht
    rcases htrace evs _ ht with ⟨_, hq⟩ | ⟨rfl, _⟩ | ⟨_, hq⟩ | ⟨ok, rfl, hq⟩
    · cases hq
    · -- the context was done: not a smooth run
      cases hsm _ List.mem_cons_self
    · cases hq
    · cases hq
      exact hsm ⟨.send msg, b⟩ (by simp)

theorem delivers_sendChunks (entries : List AssetEntry) (off : ℕ) :
    Delivers (pipeline okMan okRecipe) {chunkMessages o req entries off}
      (sendChunks o req entries off) := by
  induction off using slices.induct o.chunkSize o.chunkSize_pos entries with
  | case1 off h ih =>
    have hseq := delivers_and_then (Set.singleton_nonempty _) (delivers_send (.chunk
      (chunkMessage req (slice entries off (min (off + o.chunkSize) entries.length))))) ih
    rw [Set.image2_singleton] at hseq
    rw [sendChunks, if_pos h, chunkMessages, slices_of_lt h, List.map_cons]
    exact hseq
  | case2 off h =>
    rw [sendChunks, if_neg h, chunkMessages, slices_of_ge h]
    exact delivers_ret

theorem delivers_sendComplete (entries : List AssetEntry) (start llmElapsed : ℤ) :
    Delivers (pipeline okMan okRecipe) (completeLanguage req entries llmElapsed)
      (sendComplete req entries start llmElapsed) := by
  rw [sendComplete_eq]
  refine delivers_call (completeLanguage_nonempty req entries llmElapsed) (fun _ => rfl)
    fun finish _ => ?_
  exact (delivers_send _).mono (Set.singleton_subset_iff.mpr ⟨finish - start, rfl⟩)

/-- The stream delivers the plan, all chunks and a complete. -/
theorem delivers_stream (recipe : Recipe) (seed : ℤ) (entries : List AssetEntry)
    (start llmElapsed : ℤ) :
    Delivers (pipeline okMan okRecipe)
      {ms | ∃ elapsed, ms = streamMessages o req recipe seed entries elapsed llmElapsed}
      (stream o req recipe seed entries start llmElapsed) := by
  have hcomplete : Delivers (pipeline okMan okRecipe) (completeLanguage req entries llmElapsed)
      (sendComplete req entries start llmElapsed) :=
    delivers_sendComplete req entries start llmElapsed
  have hne := completeLanguage_nonempty req entries llmElapsed
  have hchunks := delivers_and_then hne (delivers_sendChunks o req entries 0) hcomplete
  have hstream := delivers_and_then ((Set.singleton_nonempty _).image2 hne)
    (delivers_send (.plan (planMessage req seed recipe entries))) hchunks
  refine hstream.mono ?_
  rintro _ ⟨_, rfl, _, ⟨_, rfl, _, ⟨elapsed, rfl⟩, rfl⟩, rfl⟩
  exact ⟨elapsed, rfl⟩

/-! ### Stages that hand nothing over -/

/-- What the recipe stage may return: an accepted recipe from the surroundings, or an error. -/
def RecipeResult (okRecipe : Recipe → Prop) (man : Manifest) : Except Err Recipe → Prop
  | .ok recipe => ValidRecipe man recipe ∧ okRecipe recipe
  | .error _ => True

theorem attemptResult_ok {man : Manifest} {outcome : Outcome} {recipe : Recipe}
    (h : attemptResult man outcome = .ok recipe) :
    outcome = .ok (some recipe) ∧ ValidRecipe man recipe := by
  cases outcome with
  | error err => cases h
  | ok r =>
    simp only [attemptResult] at h
    cases hv : validateRecipe r man with
    | some err => rw [hv] at h; cases h
    | none =>
      rw [hv] at h
      cases r with
      | none => cases hv
      | some r =>
        cases h
        exact ⟨rfl, (validateRecipe_eq_none_iff r man).mp hv⟩

theorem yields_recipeAttempts (man : Manifest) (attempts : ℕ) (priorError : String)
    (lastErr : Err) :
    Yields (pipeline okMan okRecipe) (RecipeResult okRecipe man)
      (recipeAttempts req man attempts priorError lastErr) := by
  induction attempts generalizing priorError lastErr with
  | zero => exact yields_ret trivial
  | succ n ih =>
    rw [recipeAttempts_succ]
    refine yields_call (fun _ => rfl) fun _ _ => yields_call (fun _ => rfl) fun outcome hout => ?_
    cases hres : attemptResult man outcome with
    | ok recipe =>
      obtain ⟨rfl, hvalid⟩ := attemptResult_ok hres
      exact yields_ret ⟨hvalid, hout⟩
    | error err =>
      cases hinv : err.invalid with
      | none =>
        simp only [hinv]
        exact yields_ret trivial
      | some detail =>
        simp only [hinv]
        exact ih detail err

theorem yields_chooseSeed : Yields (pipeline okMan okRecipe) (SeedFor req) (chooseSeed req) := by
  unfold chooseSeed SeedFor
  cases req.seed with
  | some seed => exact yields_ret rfl
  | none =>
    refine yields_call (fun _ => rfl) fun r _ => yields_ret ?_
    have hlt : (r >>> 11).toNat < 2 ^ 53 := by
      have hr := r.toNat_lt
      rw [UInt64.toNat_shiftRight, Nat.shiftRight_eq_div_pow]
      exact Nat.div_lt_of_lt_mul hr
    exact ⟨Int.natCast_nonneg _, by exact_mod_cast hlt⟩

/-! ### Stages that conclude -/

theorem concludes_sendError (code text : String) :
    Concludes (pipeline okMan okRecipe) (errorLanguage req)
      (sendError req.generationId code text true) :=
  (concludes_last (fun _ => rfl) fun _ => ⟨(), rfl⟩).mono
    (Set.singleton_subset_iff.mpr ⟨code, text, rfl⟩)

theorem concludes_reportRecipeError (err : Err) :
    Concludes (pipeline okMan okRecipe) (errorLanguage req)
      (reportRecipeError req.generationId err) := by
  rw [reportRecipeError_eq]
  refine concludes_call (errorLanguage_nonempty req) (fun _ => rfl) fun cancelled _ => ?_
  cases cancelled with
  | false => exact .inl (concludes_sendError req _ _)
  | true =>
    cases hd : err.deadlineExceeded with
    | true =>
      simp only [Bool.not_true, Bool.and_false]
      exact .inl (concludes_sendError req _ _)
    | false => exact .inr ⟨nofun, (), rfl⟩

theorem concludes_placeAndStream {man : Manifest} {recipe : Recipe} {seed : ℤ}
    (hman : okMan man) (hrecipe : okRecipe recipe) (hvalid : ValidRecipe man recipe)
    (hseed : SeedFor req seed) (start llmElapsed : ℤ) :
    Concludes (pipeline okMan okRecipe)
      (errorLanguage req ∪ streamLanguage o req okMan okRecipe)
      (placeAndStream o req man (clampCounts recipe) seed start llmElapsed) := by
  unfold placeAndStream
  cases hplace : o.place (clampCounts recipe) seed req.bounds man with
  | error err =>
    refine (concludes_call (errorLanguage_nonempty req) (fun _ => rfl) fun cancelled _ => ?_).mono
      Set.subset_union_left
    cases cancelled with
    | false => exact .inl (concludes_sendError req _ _)
    | true => exact .inr ⟨nofun, (), rfl⟩
  | ok entries =>
    refine (concludes_of_delivers (delivers_stream o req (clampCounts recipe) seed entries start
      llmElapsed) fun _ => ()).mono ?_
    rintro _ ⟨elapsed, rfl⟩
    exact .inr ⟨man, recipe, seed, entries, elapsed, llmElapsed, hman, hrecipe, hvalid, hseed,
      hplace, rfl⟩

theorem concludes_afterRecipe {man : Manifest} (hman : okMan man) (start llmElapsed : ℤ)
    {result : Except Err Recipe} (hres : RecipeResult okRecipe man result) :
    Concludes (pipeline okMan okRecipe)
      (errorLanguage req ∪ streamLanguage o req okMan okRecipe)
      (afterRecipe o req man start llmElapsed result) := by
  cases result with
  | error err => exact (concludes_reportRecipeError req err).mono Set.subset_union_left
  | ok recipe =>
    refine concludes_bind (errorLanguage_nonempty req).inl (yields_chooseSeed req) ?_
    intro seed hseed
    exact concludes_placeAndStream o req hman hres.2 hres.1 hseed start llmElapsed

theorem concludes_runWithManifest {man : Manifest} (hman : okMan man) (start : ℤ) :
    Concludes (pipeline okMan okRecipe)
      (errorLanguage req ∪ streamLanguage o req okMan okRecipe)
      (runWithManifest o req start man) := by
  have hL : (errorLanguage req ∪ streamLanguage o req okMan okRecipe).Nonempty :=
    (errorLanguage_nonempty req).inl
  rw [runWithManifest_eq]
  refine concludes_call hL (fun _ => rfl) fun llmStart _ => .inl ?_
  refine concludes_bind hL (yields_recipeAttempts req man 2 "" _) fun result hres => ?_
  exact concludes_call hL (fun _ => rfl) fun llmEnd _ =>
    .inl (concludes_afterRecipe o req hman start _ hres)

/-- **The messages of a run** are those of one error or of a full stream. -/
theorem run_concludes :
    Concludes (pipeline okMan okRecipe)
      (errorLanguage req ∪ streamLanguage o req okMan okRecipe) (run o req) := by
  have hL : (errorLanguage req ∪ streamLanguage o req okMan okRecipe).Nonempty :=
    (errorLanguage_nonempty req).inl
  rw [run_eq]
  refine concludes_call hL (fun _ => rfl) fun start _ => .inl ?_
  refine concludes_call hL (fun _ => rfl) fun ready _ => .inl ?_
  cases ready with
  | false => exact (concludes_sendError req _ _).mono Set.subset_union_left
  | true =>
    exact concludes_call hL (fun _ => rfl) fun man hman =>
      .inl (concludes_runWithManifest o req hman start)

end Stages

/-! ### The grammar -/

/-- A whole generation: one error, or a plan, chunks and a complete, all under its id. -/
inductive FullTrace (id : String) : List Message → Prop
  | error (e : Error) (he : e.generationId = id) : FullTrace id [.error e]
  | stream (p : Plan) (cs : List Chunk) (c : Complete) (hp : p.generationId = id)
      (hcs : ∀ chunk ∈ cs, chunk.generationId = id) (hc : c.generationId = id) :
      FullTrace id (.plan p :: (cs.map .chunk ++ [.complete c]))

/-- A generation that may still go on or was cut short. -/
def GenerationTrace (id : String) (ms : List Message) : Prop :=
  ∃ full, FullTrace id full ∧ ms <+: full

theorem fullTrace_streamMessages (o : Orchestrator) (req : Generate) (recipe : Recipe) (seed : ℤ)
    (entries : List AssetEntry) (elapsed llmElapsed : ℤ) :
    FullTrace req.generationId
      (streamMessages o req recipe seed entries elapsed llmElapsed) := by
  have hchunks : ∀ chunk ∈ (slices o.chunkSize o.chunkSize_pos entries 0).map (chunkMessage req),
      chunk.generationId = req.generationId := by
    intro chunk hchunk
    obtain ⟨assets, _, rfl⟩ := List.mem_map.mp hchunk
    rfl
  have h := FullTrace.stream (planMessage req seed recipe entries) _
    (completeMessage req entries elapsed llmElapsed) rfl hchunks rfl
  rw [List.map_map] at h
  exact h

theorem fullTrace_of_mem {o : Orchestrator} {req : Generate} {okMan : Manifest → Prop}
    {okRecipe : Recipe → Prop} {ms : List Message}
    (h : ms ∈ errorLanguage req ∪ streamLanguage o req okMan okRecipe) :
    FullTrace req.generationId ms := by
  rcases h with ⟨code, text, rfl⟩ |
    ⟨_, recipe, seed, entries, elapsed, llmElapsed, _, _, _, _, _, rfl⟩
  · exact .error _ rfl
  · exact fullTrace_streamMessages _ _ _ _ _ _ _

/-- Nothing is asked of the surroundings. -/
theorem allowed_of_true (evs : List (Event Eff Resp)) :
    (pipeline (fun _ => True) (fun _ => True)).Allowed evs := by
  intro ev _
  show AnswersFrom _ _ ev
  unfold AnswersFrom
  split <;> trivial

/-- **Trace grammar of a generation.**  In every environment the messages so far are a prefix
of one error or of `plan, chunk*, complete`.  If the context is live at every test and no Send
fails, a run that returns has sent one error, or the whole stream of a placement: its plan, the
chunks of all its slices, its complete.  And when every effect is answered, the run does
return. -/
theorem run_trace_grammar (o : Orchestrator) (req : Generate) :
    (∀ evs q, Trace (run o req) evs q → GenerationTrace req.generationId (sentMessages evs)) ∧
    (∀ evs, Trace (run o req) evs (.ret ()) → (∀ ev ∈ evs, Undisturbed ev) →
      FullTrace req.generationId (sentMessages evs) ∧
        ((∃ e, sentMessages evs = [.error e]) ∨
          ∃ man recipe seed entries elapsed llmElapsed,
            o.place (clampCounts recipe) seed req.bounds man = .ok entries ∧
            sentMessages evs =
              .plan (planMessage req seed (clampCounts recipe) entries) ::
                (chunkMessages o req entries 0 ++
                  [.complete (completeMessage req entries elapsed llmElapsed)]))) ∧
    (∀ answer : List (Event Eff Resp) → (e : Eff) → Resp e,
      Trace (run o req) (play answer [] (run o req)).1 (.ret ())) := by
  have hrun : Concludes (pipeline (fun _ => True) (fun _ => True)) _ (run o req) :=
    run_concludes o req
  refine ⟨?_, ?_, fun answer => trace_play answer [] _⟩
  · intro evs q ht
    obtain ⟨ms, hms, hpre⟩ := hrun.within evs q (allowed_of_true evs) ht
    exact ⟨ms, fullTrace_of_mem hms, hpre⟩
  · intro evs ht hsm
    have hms : sentMessages evs ∈ _ := hrun.finishes evs () (allowed_of_true evs) hsm ht
    refine ⟨fullTrace_of_mem hms, ?_⟩
    rcases hms with ⟨code, text, h⟩ |
      ⟨man, recipe, seed, entries, elapsed, llmElapsed, _, _, _, _, hplace, h⟩
    · exact .inl ⟨_, h⟩
    · exact .inr ⟨man, recipe, seed, entries, elapsed, llmElapsed, hplace, h⟩

/-- An environment that interferes nowhere: a ready store, one recipe, a live context. -/
def steadyAnswers (man : Manifest) (recipe : Recipe) (_ : List (Event Eff Resp)) :
    (e : Eff) → Resp e
  | .now => 0
  | .storeReady => true
  | .storeSnapshot => man
  | .llmInvoke _ => ()
  | .llmReturn => .ok (some recipe)
  | .randUint64 => 0
  | .ctxErr => false
  | .ctxDone => false
  | .send _ => true

theorem undisturbed_steadyAnswers {α : Type} (man : Manifest) (recipe : Recipe)
    (past : List (Event Eff Resp)) (p : Run α) :
    ∀ ev ∈ (play (steadyAnswers man recipe) past p).1, Undisturbed ev := by
  intro ev hev
  obtain ⟨past', heq⟩ := mem_play hev
  rw [heq]
  cases ev.1 <;> trivial

/-- The manifest of a play is the one that was given. -/
theorem snapshot_play {α : Type} {man man' : Manifest} {recipe : Recipe} {p : Run α}
    (h : ⟨Eff.storeSnapshot, man'⟩ ∈ (play (steadyAnswers man recipe) [] p).1) : man' = man := by
  obtain ⟨_, heq⟩ := mem_play h
  exact eq_of_heq (Sigma.mk.inj heq).2

def meadowRequest : Generate := ⟨Version, TypeGenerate, "g1", "a meadow", some 7, meadowBounds⟩

theorem run_trace_grammar_meadow :
    ∃ evs, Trace (run (.new sawtoothDraws) meadowRequest) evs (.ret ()) ∧
      (∀ ev ∈ evs, Undisturbed ev) ∧ (sentMessages evs).length = 3 ∧
      FullTrace "g1" (sentMessages evs) := by
  have hgrammar := run_trace_grammar (.new sawtoothDraws) meadowRequest
  have hsteady := undisturbed_steadyAnswers meadowManifest meadowRecipe []
    (run (.new sawtoothDraws) meadowRequest)
  have htrace := hgrammar.2.2 (steadyAnswers meadowManifest meadowRecipe)
  exact ⟨_, htrace, hsteady, by decide +kernel, (hgrammar.2.1 _ htrace hsteady).1⟩

end AetherForge
