import AetherForge.Library.Delivery
import AetherForge.Library.Slicing
import AetherForge.Backend.Caps
import AetherForge.Backend.Placement

/-!
# The generation pipeline

`run` of `orchestrator.go` with everything it calls: the LLM call with one retry, validation,
the caps, placement, and the stream of plan, chunks and complete.  It is a program over the
effects `Eff`: reading the store, calling the model, testing the context, handing a message to
the Sender.  Every answer comes from the environment, so the statements about its traces range
over all LLM behaviours, cancellation points and Sender results at once.

* `run_concludes` — the messages of a run are a prefix of one error, or of the full stream of
  some accepted recipe; an undisturbed run hands over all of it;
* `run_trace_grammar` — the grammar of a generation's messages.
-/

namespace AetherForge

open Go Interaction Slicing

/-! ### Effects -/

/-- What the pipeline asks of its surroundings. -/
inductive Eff
  /-- `time.Now()`, in nanoseconds. -/
  | now
  /-- `o.store.Ready()`. -/
  | storeReady
  /-- `o.store.Snapshot()`. -/
  | storeSnapshot
  /-- The call of `o.llm.GenerateRecipe`. -/
  | llmInvoke (req : Request)
  /-- Its return. -/
  | llmReturn
  /-- `rand.Uint64()`. -/
  | randUint64
  /-- `ctx.Err() != nil`. -/
  | ctxErr
  /-- Whether `ctx.Done()` is closed. -/
  | ctxDone
  /-- `o.sender.Send(msg)`, answered by whether it returned `nil`. -/
  | send (msg : Message)

/-- The answers to each effect. -/
abbrev Resp : Eff → Type
  | .now => ℤ
  | .storeReady => Bool
  | .storeSnapshot => Manifest
  | .llmInvoke _ => Unit
  | .llmReturn => Outcome
  | .randUint64 => UInt64
  | .ctxErr => Bool
  | .ctxDone => Bool
  | .send _ => Bool

abbrev Run (α : Type) := Prog Eff Resp α

/-- What a connection's orchestrator is configured with: the chunk size, which
`SetChunkSize` keeps positive, and the placement engine. -/
structure Orchestrator where
  chunkSize : ℕ
  chunkSize_pos : 0 < chunkSize
  place : Recipe → ℤ → Bounds → Manifest → Except PlaceError (List AssetEntry)

/-- `New`. -/
def Orchestrator.new (D : Draws) : Orchestrator :=
  ⟨DefaultChunkSize, by decide, AetherForge.place D⟩

def Orchestrator.setChunkSize (o : Orchestrator) (n : ℕ) : Orchestrator :=
  if h : 0 < n then { o with chunkSize := n, chunkSize_pos := h } else o

/-! ### Sending -/

/-- `send`: hand a message over unless the context is done; whether streaming goes on. -/
def send (msg : Message) : Run Bool := do
  let done ← perform Eff.ctxDone
  if done then return false else perform (Eff.send msg)

def errorMessage (generationId code message : String) (recoverable : Bool) : Message :=
  .error ⟨Version, TypeError, generationId, code, message, recoverable⟩

def sendError (generationId code message : String) (recoverable : Bool) : Run Unit := do
  let _ ← perform (Eff.send (errorMessage generationId code message recoverable))
  return ()

/-! ### The recipe -/

/-- The outcome of one attempt: the client's error, or the validator's.  A `nil` recipe never
passes validation. -/
def attemptResult (man : Manifest) (outcome : Outcome) : Except Err Recipe :=
  match outcome with
  | .error err => .error err
  | .ok recipe =>
    match validateRecipe recipe man with
    | some err => .error err
    | none => .ok (recipe.getD default)

/-- The attempt loop of `recipeWithRetry`, with the attempts left, `priorError` and
`lastErr`. -/
def recipeAttempts (req : Generate) (man : Manifest) :
    ℕ → String → Err → Run (Except Err Recipe)
  | 0, _, lastErr => return .error (lastErr.wrap "after one retry: " "")
  | attempts + 1, priorError, _ => do
    perform (Eff.llmInvoke ⟨req.prompt, man, priorError⟩)
    let outcome ← perform Eff.llmReturn
    match attemptResult man outcome with
    | .ok recipe => return .ok recipe
    | .error err =>
      match err.invalid with
      | none => return .error err
      | some detail => recipeAttempts req man attempts detail err

/-- `recipeWithRetry`.  (`lastErr` starts as `nil`, which is never returned.) -/
def recipeWithRetry (req : Generate) (man : Manifest) : Run (Except Err Recipe) :=
  recipeAttempts req man 2 "" (Err.new "%!w(<nil>)")

def recipeErrorCode (err : Err) : String :=
  if err.deadlineExceeded then CodeLLMTimeout
  else if err.invalid.isSome then CodeLLMInvalidOutput
  else CodeInternal

def recipeErrorText (err : Err) : String :=
  if err.deadlineExceeded then "LLM request timed out"
  else
    match err.invalid with
    | some detail => "LLM output failed schema validation after one retry: " ++ detail
    | none => err.text

/-- `reportRecipeError`. -/
def reportRecipeError (generationId : String) (err : Err) : Run Unit := do
  let cancelled ← perform Eff.ctxErr
  if cancelled && !err.deadlineExceeded then return ()
  else sendError generationId (recipeErrorCode err) (recipeErrorText err) true

/-! ### The stream -/

/-- `plan.Categories`: filled from the clamped recipe, item by item. -/
def planCategories (items : List CategoryRecipe) : GoMap ℤ :=
  items.foldl (fun m it => m.set it.category it.count) (.make ∅)

def planMessage (req : Generate) (seed : ℤ) (recipe : Recipe) (entries : List AssetEntry) : Plan :=
  ⟨Version, TypePlan, req.generationId, seed, entries.length, planCategories recipe.items.elems⟩

def chunkMessage (req : Generate) (assets : List AssetEntry) : Chunk :=
  ⟨Version, TypeChunk, req.generationId, .make assets⟩

/-- `Duration.Milliseconds` of a number of nanoseconds. -/
def milliseconds (ns : ℤ) : ℤ := ns.tdiv 1000000

def completeMessage (req : Generate) (entries : List AssetEntry) (elapsed llmElapsed : ℤ) :
    Complete :=
  ⟨Version, TypeComplete, req.generationId,
    ⟨entries.length, milliseconds elapsed, milliseconds llmElapsed⟩⟩

/-- The chunk loop, from offset `off`. -/
def sendChunks (o : Orchestrator) (req : Generate) (entries : List AssetEntry) (off : ℕ) :
    Run Bool :=
  if off < entries.length then
    andThen
      (send (.chunk (chunkMessage req
        (slice entries off (min (off + o.chunkSize) entries.length)))))
      (sendChunks o req entries (off + o.chunkSize))
  else return true
termination_by entries.length - off
decreasing_by
  have := o.chunkSize_pos
  omega

/-- The message that ends the stream. -/
def sendComplete (req : Generate) (entries : List AssetEntry) (start llmElapsed : ℤ) :
    Run Bool := do
  let finish ← perform Eff.now
  send (.complete (completeMessage req entries (finish - start) llmElapsed))

/-- `plan → chunk… → complete`; whether all of it was sent. -/
def stream (o : Orchestrator) (req : Generate) (recipe : Recipe) (seed : ℤ)
    (entries : List AssetEntry) (start llmElapsed : ℤ) : Run Bool :=
  andThen (send (.plan (planMessage req seed recipe entries)))
    (andThen (sendChunks o req entries 0) (sendComplete req entries start llmElapsed))

/-! ### run -/

/-- The seed in effect: the request's, or 53 random bits. -/
def chooseSeed (req : Generate) : Run ℤ :=
  match req.seed with
  | some seed => return seed
  | none => do
    let r ← perform Eff.randUint64
    return ((r >>> 11).toNat : ℤ)

/-- Placement of the clamped recipe, and the stream or the placement error. -/
def placeAndStream (o : Orchestrator) (req : Generate) (man : Manifest) (recipe : Recipe)
    (seed start llmElapsed : ℤ) : Run Unit :=
  match o.place recipe seed req.bounds man with
  | .error err => do
    let cancelled ← perform Eff.ctxErr
    if cancelled then return () else sendError req.generationId CodeInternal err.text true
  | .ok entries => do
    let _ ← stream o req recipe seed entries start llmElapsed
    return ()

/-- What follows the LLM stage. -/
def afterRecipe (o : Orchestrator) (req : Generate) (man : Manifest) (start llmElapsed : ℤ) :
    Except Err Recipe → Run Unit
  | .error err => reportRecipeError req.generationId err
  | .ok recipe => do
    let seed ← chooseSeed req
    placeAndStream o req man (clampCounts recipe) seed start llmElapsed

/-- The pipeline once the manifest is known. -/
def runWithManifest (o : Orchestrator) (req : Generate) (start : ℤ) (man : Manifest) :
    Run Unit := do
  let llmStart ← perform Eff.now
  let result ← recipeWithRetry req man
  let llmEnd ← perform Eff.now
  afterRecipe o req man start (llmEnd - llmStart) result

/-- `run`. -/
def run (o : Orchestrator) (req : Generate) : Run Unit := do
  let start ← perform Eff.now
  let ready ← perform Eff.storeReady
  if ready then do
    let man ← perform Eff.storeSnapshot
    runWithManifest o req start man
  else
    sendError req.generationId CodeInternal
      "no manifest: hello handshake must precede generate" true

/-! ### The stages as calls -/

theorem send_eq (msg : Message) :
    send msg = .call Eff.ctxDone fun done =>
      if done then .ret false else .call (Eff.send msg) .ret := rfl

theorem sendError_eq (generationId code message : String) (recoverable : Bool) :
    sendError generationId code message recoverable =
      .call (Eff.send (errorMessage generationId code message recoverable)) fun _ => .ret () := rfl

theorem recipeAttempts_succ (req : Generate) (man : Manifest) (attempts : ℕ) (priorError : String)
    (lastErr : Err) :
    recipeAttempts req man (attempts + 1) priorError lastErr =
      .call (Eff.llmInvoke ⟨req.prompt, man, priorError⟩) fun _ =>
        .call Eff.llmReturn fun outcome =>
          match attemptResult man outcome with
          | .ok recipe => .ret (.ok recipe)
          | .error err =>
            match err.invalid with
            | none => .ret (.error err)
            | some detail => recipeAttempts req man attempts detail err := rfl

theorem reportRecipeError_eq (generationId : String) (err : Err) :
    reportRecipeError generationId err = .call Eff.ctxErr fun cancelled =>
      if cancelled && !err.deadlineExceeded then .ret ()
      else sendError generationId (recipeErrorCode err) (recipeErrorText err) true := rfl

theorem sendComplete_eq (req : Generate) (entries : List AssetEntry) (start llmElapsed : ℤ) :
    sendComplete req entries start llmElapsed = .call Eff.now fun finish =>
      send (.complete (completeMessage req entries (finish - start) llmElapsed)) := rfl

theorem runWithManifest_eq (o : Orchestrator) (req : Generate) (start : ℤ) (man : Manifest) :
    runWithManifest o req start man = .call Eff.now fun llmStart =>
      recipeWithRetry req man >>= fun result => .call Eff.now fun llmEnd =>
        afterRecipe o req man start (llmEnd - llmStart) result := rfl

theorem run_eq (o : Orchestrator) (req : Generate) :
    run o req = .call Eff.now fun start => .call Eff.storeReady fun ready =>
      if ready then .call Eff.storeSnapshot fun man => runWithManifest o req start man
      else sendError req.generationId CodeInternal
        "no manifest: hello handshake must precede generate" true := rfl

end AetherForge
