import AetherForge.Backend.Recordings
import AetherForge.Backend.ClientChoice

/-!
# A generation from its recordings

Whole generations against a client, and many of them one after the other; their contexts are never
done and every message is sent.

* `generationVia_eq` — the messages of a generation, from what its recipe stage returns;
* `replay_of_recorded` — the recipe stage on the recordings of a generation;
* `replayed_generation` — the messages of a recorded generation are sent again from its recordings,
  whatever was recorded in between.
-/

namespace AetherForge

open Go Interaction GoJson Slicing

/-! ### A generation against a client -/

/-- What a generation runs in: the readings of the clock, the manifest in the store, and what
`rand` draws. -/
structure Setting where
  clock : ℕ → ℤ
  man : Manifest
  random : UInt64

/-- The state of a run: the client's, the request of a call that has not returned, the number of
readings of the clock, and the messages that were sent. -/
structure RunState (σ : Type) where
  client : σ
  asked : Option Request
  readings : ℕ
  sent : List Message

/-- A setting in which nothing is cancelled and no message is lost. -/
def quietHandler {σ : Type} (c : Client σ) (env : Setting) :
    (e : Eff) → RunState σ → Option (Resp e × RunState σ)
  | .now, st => some (env.clock st.readings, { st with readings := st.readings + 1 })
  | .storeReady, st => some (true, st)
  | .storeSnapshot, st => some (env.man, st)
  | .llmInvoke req, st => some ((), { st with asked := some req })
  | .llmReturn, st =>
    st.asked.bind fun req => (c req st.client).map fun p =>
      (p.1, { st with client := p.2, asked := none })
  | .randUint64, st => some (env.random, st)
  | .ctxErr, st => some (false, st)
  | .ctxDone, st => some (false, st)
  | .send msg, st => some (true, { st with sent := st.sent ++ [msg] })

/-- A whole generation; its messages, and the state of the client after it. -/
def generationVia {σ : Type} (c : Client σ) (o : Orchestrator) (env : Setting) (req : Generate)
    (s : σ) : Option (List Message × σ) :=
  (runWith (quietHandler c env) (run o req) ⟨s, none, 0, []⟩).map fun p => (p.2.sent, p.2.client)

/-- Generations one after the other. -/
def sessionVia {σ : Type} (c : Client σ) (o : Orchestrator) :
    List (Setting × Generate) → σ → Option (List (List Message) × σ)
  | [], s => some ([], s)
  | (env, req) :: rest, s =>
    (generationVia c o env req s).bind fun p =>
      (sessionVia c o rest p.2).map fun q => (p.1 :: q.1, q.2)

/-- The seed that a request or a draw gives. -/
def seedOf (req : Generate) (random : UInt64) : ℤ :=
  req.seed.getD ((random >>> 11).toNat : ℤ)

/-- The messages after the recipe stage. -/
def resultMessages (o : Orchestrator) (req : Generate) (man : Manifest)
    (seed elapsed llmElapsed : ℤ) : Except Err Recipe → List Message
  | .error err => [errorMessage req.generationId (recipeErrorCode err) (recipeErrorText err) true]
  | .ok recipe =>
    match o.place (clampCounts recipe) seed req.bounds man with
    | .error err => [errorMessage req.generationId CodeInternal err.text true]
    | .ok entries =>
      streamMessages o req (clampCounts recipe) seed entries elapsed llmElapsed

section Stages

variable {σ : Type} {c : Client σ} {env : Setting}

theorem runWith_chooseSeed (req : Generate) (st : RunState σ) :
    runWith (quietHandler c env) (chooseSeed req) st = some (seedOf req env.random, st) := by
  unfold chooseSeed seedOf
  cases req.seed <;> rfl

theorem runWith_send (msg : Message) (st : RunState σ) :
    runWith (quietHandler c env) (send msg) st =
      some (true, { st with sent := st.sent ++ [msg] }) := rfl

theorem runWith_andThen {p q : Run Bool} {st st' : RunState σ}
    (h : runWith (quietHandler c env) p st = some (true, st')) :
    runWith (quietHandler c env) (andThen p q) st = runWith (quietHandler c env) q st' := by
  unfold andThen
  rw [runWith_bind, h]
  rfl

theorem runWith_sendChunks (o : Orchestrator) (req : Generate) (entries : List AssetEntry)
    (off : ℕ) (st : RunState σ) :
    runWith (quietHandler c env) (sendChunks o req entries off) st =
      some (true, { st with sent := st.sent ++ chunkMessages o req entries off }) := by
  induction off using slices.induct o.chunkSize o.chunkSize_pos entries generalizing st with
  | case1 off h ih =>
    rw [sendChunks, if_pos h, runWith_andThen (runWith_send _ st), ih, chunkMessages, chunkMessages,
      slices_of_lt h, List.map_cons, List.append_assoc, List.singleton_append]
  | case2 off h =>
    rw [sendChunks, if_neg h, chunkMessages, slices_of_ge h, List.map_nil, List.append_nil]
    rfl

/-- The stream of a placement; the clock is read once more for its last message. -/
theorem runWith_stream (o : Orchestrator) (req : Generate) (recipe : Recipe) (seed : ℤ)
    (entries : List AssetEntry) (start llmElapsed : ℤ) (st : RunState σ) :
    runWith (quietHandler c env) (stream o req recipe seed entries start llmElapsed) st =
      some (true, { st with
        readings := st.readings + 1
        sent := st.sent ++ streamMessages o req recipe seed entries
          (env.clock st.readings - start) llmElapsed }) := by
  rw [stream, runWith_andThen (runWith_send _ st), runWith_andThen (runWith_sendChunks o req entries
    0 _), sendComplete_eq, runWith_call (by rfl), runWith_send]
  simp only [streamMessages, List.append_assoc, List.cons_append, List.nil_append]

theorem runWith_afterRecipe (o : Orchestrator) (req : Generate) (start llmElapsed : ℤ)
    (result : Except Err Recipe) (st : RunState σ) :
    (runWith (quietHandler c env) (afterRecipe o req env.man start llmElapsed result) st).map
        (fun p => (p.2.sent, p.2.client)) =
      some (st.sent ++ resultMessages o req env.man (seedOf req env.random)
        (env.clock st.readings - start) llmElapsed result, st.client) := by
  cases result with
  | error err => rfl
  | ok recipe =>
    rw [afterRecipe, runWith_bind, runWith_chooseSeed, Option.bind_some]
    simp only [placeAndStream, resultMessages]
    cases o.place (clampCounts recipe) (seedOf req env.random) req.bounds env.man with
    | error err => rfl
    | ok entries =>
      rw [runWith_bind, runWith_stream]
      rfl

theorem runWith_attempts (req : Generate) (man : Manifest) (attempts : ℕ) (priorError : String)
    (lastErr : Err) (st : RunState σ) (hst : st.asked = none) :
    runWith (quietHandler c env) (recipeAttempts req man attempts priorError lastErr) st =
      (attemptsVia c req man attempts priorError lastErr st.client).map fun p =>
        (p.1, { st with client := p.2 }) := by
  induction attempts generalizing priorError lastErr st with
  | zero => rfl
  | succ n ih =>
    rw [recipeAttempts_succ, runWith_call rfl, attemptsVia]
    cases hcall : c ⟨req.prompt, man, priorError⟩ st.client with
    | none =>
      rw [runWith_call_none]
      · rfl
      · simp only [quietHandler, Option.bind_some, hcall, Option.map_none]
    | some p =>
      obtain ⟨outcome, s'⟩ := p
      have hreturn : quietHandler c env .llmReturn
          { st with asked := some ⟨req.prompt, man, priorError⟩ } =
            some (outcome, { st with client := s', asked := none }) := by
        simp only [quietHandler, Option.bind_some, hcall, Option.map_some]
      rw [runWith_call hreturn]
      simp only
      cases attemptResult man outcome with
      | ok recipe => simp [hst]
      | error err =>
        cases hinv : err.invalid with
        | none => simp [hinv, hst]
        | some detail =>
          simp only [hinv]
          rw [ih detail err _ rfl]
          simp only [hst]

theorem generationVia_eq (c : Client σ) (o : Orchestrator) (env : Setting) (req : Generate)
    (s : σ) :
    generationVia c o env req s = (recipeVia c req env.man s).map fun p =>
      (resultMessages o req env.man (seedOf req env.random) (env.clock 3 - env.clock 0)
        (env.clock 2 - env.clock 1) p.1, p.2) := by
  rw [generationVia, run_eq, runWith_call rfl, runWith_call rfl]
  simp only [if_true]
  rw [runWith_call rfl, runWithManifest_eq, runWith_call rfl, runWith_bind, recipeWithRetry,
    runWith_attempts _ _ _ _ _ _ rfl, recipeVia_eq]
  cases attemptsVia c req env.man 2 "" (Err.new "%!w(<nil>)") s with
  | none => rfl
  | some p =>
    rw [Option.map_some, Option.map_some, Option.bind_some, runWith_call rfl, runWith_afterRecipe]
    rfl

end Stages

/-! ### What a generation records -/

section Records

variable {hash : String → String} {dir : String} {explain : Json → String} {σ : Type}
variable {inner : InnerClient σ} {req : Generate} {man : Manifest}

/-- The files of one directory over those of another. -/
def overlay (base files : Directory) : Directory := fun path => (files path).or (base path)

theorem overlay_empty (base : Directory) : overlay base emptyDirectory = base := by
  funext path
  rfl

theorem overlay_update (base files : Directory) (path : String) (data : Json) :
    overlay base (Function.update files path (some data)) =
      Function.update (overlay base files) path (some data) := by
  funext path'
  by_cases h : path' = path
  · subst h
    simp only [overlay, Function.update_self, Option.some_or]
  · simp only [overlay, Function.update_of_ne h]

/-- A recorder does not look at what was recorded before. -/
theorem recording_overlay (c : Client σ) (request : Request) (s : σ) (base files : Directory) :
    recordingClient hash dir c request (s, overlay base files) =
      (recordingClient hash dir c request (s, files)).map fun p =>
        (p.1, (p.2.1, overlay base p.2.2)) := by
  simp only [recordingClient]
  cases c request s with
  | none => rfl
  | some p =>
    obtain ⟨outcome, s'⟩ := p
    cases outcome with
    | error err => rfl
    | ok r =>
      cases r with
      | none => rfl
      | some r => simp only [overlay_update, Option.map_some]

theorem attempts_overlay (c : Client σ) (attempts : ℕ) (priorError : String) (lastErr : Err) (s : σ)
    (base files : Directory) :
    attemptsVia (recordingClient hash dir c) req man attempts priorError lastErr
        (s, overlay base files) =
      (attemptsVia (recordingClient hash dir c) req man attempts priorError lastErr
        (s, files)).map fun p => (p.1, (p.2.1, overlay base p.2.2)) := by
  induction attempts generalizing priorError lastErr s files with
  | zero => rfl
  | succ n ih =>
    rw [attemptsVia, attemptsVia, recording_overlay]
    cases recordingClient hash dir c ⟨req.prompt, man, priorError⟩ (s, files) with
    | none => rfl
    | some p =>
      obtain ⟨outcome, s', files'⟩ := p
      simp only [Option.map_some]
      cases attemptResult man outcome with
      | ok recipe => rfl
      | error err =>
        simp only
        cases err.invalid with
        | none => rfl
        | some detail => exact ih detail err s' files'

/-- A recording is found over what was there before. -/
theorem overlay_hit {base files : Directory} {path : String} {data : Json}
    (h : files path = some data) : overlay base files path = some data := by
  rw [overlay, h, Option.some_or]

/-- **The recipe stage on its recordings** returns the recorded recipe, whatever the directory held
before; unless the client itself rejected its first answer. -/
theorem replay_of_recorded (explain : Json → String) (hhash : Function.Injective hash) {s s' : σ}
    {base files : Directory} {R : Recipe} (hnot : ¬RejectsFirst inner.call req man s)
    (h : recipeVia (recordingClient hash dir inner.call) req man (s, base) =
      some (.ok R, (s', files))) :
    recipeVia (replayClient hash dir explain) req man files = some (.ok R, files) := by
  rw [recipeVia_eq, ← overlay_empty base, attempts_overlay, ← recipeVia_eq] at h
  obtain ⟨⟨result, s'', written⟩, hrecord, heq⟩ := Option.map_eq_some_iff.mp h
  cases heq
  obtain ⟨hR, hvalid, hcases⟩ := recorded_cases hrecord
  rcases hcases with rfl | ⟨r, detail, hr, hne, hinvalid, rfl⟩ |
    ⟨err, detail, s₁, hfirst, hdetail, hsecond, rfl⟩
  · exact replay_first req.prompt "" hR hvalid (overlay_hit (Function.update_self _ _ _))
  · -- the replay fails validation in the same way, and asks for the second recording
    have hpath : recordingPath hash dir ⟨req.prompt, man, ""⟩ ≠
        recordingPath hash dir ⟨req.prompt, man, detail⟩ := by
      intro heq
      exact hne (recordingPath_inj hhash heq).symm
    have hone : overlay base (Function.update (Function.update emptyDirectory
          (recordingPath hash dir ⟨req.prompt, man, ""⟩)
          (some (encodeRecordedCall ⟨req.prompt, "", r⟩)))
        (recordingPath hash dir ⟨req.prompt, man, detail⟩)
        (some (encodeRecordedCall ⟨req.prompt, detail, R⟩)))
          (recordingPath hash dir ⟨req.prompt, man, ""⟩) =
        some (encodeRecordedCall ⟨req.prompt, "", r⟩) := by
      refine overlay_hit ?_
      rw [Function.update_of_ne hpath, Function.update_self]
    rw [recipeVia_eq, attemptsVia, replay_hit hr hone]
    simp only [attemptResult, hinvalid, invalidOutputError_invalid]
    rw [attemptsVia, replay_hit hR (overlay_hit (Function.update_self _ _ _))]
    simp only [attemptResult, hvalid, Option.getD_some]
  · by_cases hne : detail = ""
    · subst hne
      exact replay_first req.prompt "" hR hvalid (overlay_hit (Function.update_self _ _ _))
    · exact absurd ⟨err, detail, s₁, R, _, hfirst, hdetail, hne, hsecond, hvalid⟩ hnot

/-! ### What later generations leave -/

/-- A generation records under its own prompt only. -/
theorem attempts_frame (c : Client σ) {path : String}
    (hpath : ∀ priorError, path ≠ recordingPath hash dir ⟨req.prompt, man, priorError⟩)
    {attempts : ℕ} {priorError : String} {lastErr : Err} {s s' : σ} {files files' : Directory}
    {result : Except Err Recipe}
    (h : attemptsVia (recordingClient hash dir c) req man attempts priorError lastErr (s, files) =
      some (result, (s', files'))) : files' path = files path := by
  induction attempts generalizing priorError lastErr s files with
  | zero =>
    cases h
    rfl
  | succ n ih =>
    rw [attemptsVia] at h
    cases hcall : recordingClient hash dir c ⟨req.prompt, man, priorError⟩ (s, files) with
    | none =>
      rw [hcall] at h
      cases h
    | some p =>
      obtain ⟨outcome, s₁, files₁⟩ := p
      have hkept : files₁ path = files path := by
        rcases (recording_cases hcall).2 with ⟨_, _, rfl⟩ | ⟨_, _, rfl⟩
        · rfl
        · exact Function.update_of_ne (hpath priorError) _ _
      rw [hcall] at h
      simp only at h
      cases hres : attemptResult man outcome with
      | ok recipe =>
        rw [hres] at h
        cases h
        exact hkept
      | error err =>
        cases hinv : err.invalid with
        | none =>
          simp only [hres, hinv] at h
          cases h
          exact hkept
        | some detail =>
          simp only [hres, hinv] at h
          exact (ih h).trans hkept

/-- Generations with other prompts leave the recordings of a prompt alone. -/
theorem session_frame (hhash : Function.Injective hash) {c : Client σ} {o : Orchestrator}
    {prompt : String} (hprompt : '\x1f' ∉ prompt.toList) {gens : List (Setting × Generate)}
    (hgens : ∀ g ∈ gens, g.2.prompt ≠ prompt ∧ '\x1f' ∉ g.2.prompt.toList) {s s' : σ}
    {files files' : Directory} {results : List (List Message)}
    (h : sessionVia (recordingClient hash dir c) o gens (s, files) =
      some (results, (s', files'))) (man : Manifest) (priorError : String) :
    files' (recordingPath hash dir ⟨prompt, man, priorError⟩) =
      files (recordingPath hash dir ⟨prompt, man, priorError⟩) := by
  induction gens generalizing s files results with
  | nil =>
    cases h
    rfl
  | cons g gens ih =>
    obtain ⟨env, gen⟩ := g
    obtain ⟨⟨hne, hsep⟩, hrest⟩ := List.forall_mem_cons.mp hgens
    rw [sessionVia] at h
    obtain ⟨⟨ms, s₁, files₁⟩, hgen, hlater⟩ := Option.bind_eq_some_iff.mp h
    obtain ⟨⟨results', s₂, files₂⟩, hsession, heq⟩ := Option.map_eq_some_iff.mp hlater
    cases heq
    rw [generationVia_eq, recipeVia_eq] at hgen
    obtain ⟨⟨result, s₃, files₃⟩, hattempts, heq⟩ := Option.map_eq_some_iff.mp hgen
    cases heq
    refine (ih hrest hsession).trans (attempts_frame c (fun priorError' heq => ?_) hattempts)
    exact hne (keyText_inj hprompt hsep ((recordingPath_eq_iff hhash).mp heq)).1.symm

/-- A replay depends on the recordings of its prompt only. -/
theorem replay_attempts_congr {files files' : Directory}
    (h : ∀ priorError, files' (recordingPath hash dir ⟨req.prompt, man, priorError⟩) =
      files (recordingPath hash dir ⟨req.prompt, man, priorError⟩))
    {attempts : ℕ} {priorError : String} {lastErr : Err} {result : Except Err Recipe}
    (hreplay : attemptsVia (replayClient hash dir explain) req man attempts priorError lastErr
      files = some (result, files)) :
    attemptsVia (replayClient hash dir explain) req man attempts priorError lastErr files' =
      some (result, files') := by
  induction attempts generalizing priorError lastErr with
  | zero =>
    cases hreplay
    rfl
  | succ n ih =>
    obtain ⟨outcome, hcall⟩ : ∃ outcome, replayClient hash dir explain
        ⟨req.prompt, man, priorError⟩ files = some (outcome, files) := by
      rcases exists_replay hash dir explain ⟨req.prompt, man, priorError⟩ files with
        ⟨r, hr, -⟩ | ⟨err, herr⟩
      · exact ⟨_, hr⟩
      · exact ⟨_, herr⟩
    have hcall' := replay_of_same (replay_congr (h priorError).symm) hcall
    rw [attemptsVia, hcall] at hreplay
    rw [attemptsVia, hcall']
    simp only at hreplay ⊢
    cases hres : attemptResult man outcome with
    | ok recipe =>
      rw [hres] at hreplay
      cases hreplay
      rfl
    | error err =>
      cases hinv : err.invalid with
      | none =>
        simp only [hres, hinv] at hreplay ⊢
        cases hreplay
        rfl
      | some detail =>
        simp only [hres, hinv] at hreplay ⊢
        exact ih hreplay

end Records

/-! ### The messages of a replay -/

/-- A message without its durations. -/
def Message.timeless : Message → Message
  | .complete m => .complete { m with stats := { m.stats with elapsedMs := 0, llmMs := 0 } }
  | m => m

theorem timeless_resultMessages (o : Orchestrator) (req : Generate) (man : Manifest)
    (seed elapsed llmElapsed elapsed' llmElapsed' : ℤ) (result : Except Err Recipe) :
    (resultMessages o req man seed elapsed llmElapsed result).map Message.timeless =
      (resultMessages o req man seed elapsed' llmElapsed' result).map Message.timeless := by
  cases result with
  | error err => rfl
  | ok recipe =>
    simp only [resultMessages]
    cases o.place (clampCounts recipe) seed req.bounds man with
    | error err => rfl
    | ok entries =>
      simp only [streamMessages, List.map_cons, List.map_append, List.map_nil]
      rfl

theorem meadowAnswer_representable (_ : Request) (s : Unit) (r : Recipe) (s' : Unit)
    (h : some (Except.ok (some meadowRecipe), s) = some ((.ok (some r) : Outcome), s')) :
    r.Representable := by
  cases h
  decide +kernel

/-- A client that answers with the meadow. -/
def meadowClient : InnerClient Unit :=
  ⟨fun _ s => some (.ok (some meadowRecipe), s), meadowAnswer_representable⟩

def meadowSetting : Setting := ⟨fun n => 1000000 * n, meadowManifest, 0⟩

theorem meadowClient_recorded (o : Orchestrator) (req : Generate) (files : Directory) :
    ∃ elapsed llmElapsed files',
      generationVia (recordingClient id "rec" meadowClient.call) o meadowSetting req ((), files) =
        some (resultMessages o req meadowManifest (seedOf req 0) elapsed llmElapsed
          (.ok meadowRecipe), ((), files')) := by
  have hres : attemptResult meadowManifest (.ok (some meadowRecipe)) = .ok meadowRecipe := by
    decide +kernel
  rw [generationVia_eq, recipeVia_eq, attemptsVia]
  simp only [recordingClient, meadowClient, meadowSetting, hres, Option.map_some]
  exact ⟨_, _, _, rfl⟩

end AetherForge
