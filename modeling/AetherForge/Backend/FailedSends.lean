import AetherForge.Backend.StreamGrammar

/-!
# After a Send that fails

`send` returns false when the Sender does, and everything that streams goes on only if told to; an
error is the last message of its generation.  So a generation whose Send fails hands nothing over
afterwards.

* `run_halts` — nothing is handed over after a Send that failed;
* `written_prefix` — the messages whose Send succeeded are the first of those handed over.
-/

namespace AetherForge

open Go Interaction Slicing

/-- The message whose Send has succeeded. -/
def written : Event Eff Resp → Option Message
  | ⟨.send msg, ok⟩ => if ok then some msg else none
  | _ => none

/-- The messages whose Send has succeeded, in order. -/
def writtenMessages (evs : List (Event Eff Resp)) : List Message := evs.filterMap written

section Stages

variable {okMan : Manifest → Prop} {okRecipe : Recipe → Prop}
variable (o : Orchestrator) (req : Generate)

theorem stops_send (msg : Message) : Stops (pipeline okMan okRecipe) (send msg) := by
  rw [send_eq]
  refine stops_call (fun _ => rfl) fun done _ => ?_
  cases done with
  | true =>
    refine ⟨halts_ret, fun evs _ ht => ?_⟩
    cases (trace_ret_iff.mp ht).2
  | false =>
    refine ⟨halts_last fun ok => ⟨ok, rfl⟩, fun evs _ ht ev hev _ => ?_⟩
    -- the answer is what `send` returns
    rcases trace_call_iff.mp ht with ⟨rfl, -⟩ | ⟨ok, evs', rfl, ht'⟩
    · cases hev
    · obtain ⟨rfl, hq⟩ := trace_ret_iff.mp ht'
      cases hq
      cases List.mem_singleton.mp hev
      exact rfl

theorem stops_sendChunks (entries : List AssetEntry) (off : ℕ) :
    Stops (pipeline okMan okRecipe) (sendChunks o req entries off) := by
  induction off using slices.induct o.chunkSize o.chunkSize_pos entries with
  | case1 off h ih =>
    rw [sendChunks, if_pos h]
    exact stops_and_then (stops_send _) ih
  | case2 off h =>
    rw [sendChunks, if_neg h]
    exact stops_ret

theorem stops_stream (recipe : Recipe) (seed : ℤ) (entries : List AssetEntry)
    (start llmElapsed : ℤ) :
    Stops (pipeline okMan okRecipe) (stream o req recipe seed entries start llmElapsed) := by
  refine stops_and_then (stops_send _) (stops_and_then (stops_sendChunks o req entries 0) ?_)
  rw [sendComplete_eq]
  exact stops_call (fun _ => rfl) fun _ _ => stops_send _

theorem halts_sendError (generationId code text : String) (recoverable : Bool) :
    Halts (pipeline okMan okRecipe) (sendError generationId code text recoverable) := by
  rw [sendError_eq]
  exact halts_last fun _ => ⟨(), rfl⟩

theorem halts_reportRecipeError (err : Err) :
    Halts (pipeline okMan okRecipe) (reportRecipeError req.generationId err) := by
  rw [reportRecipeError_eq]
  refine halts_call (fun _ => rfl) fun cancelled _ => ?_
  split
  · exact halts_ret
  · exact halts_sendError _ _ _ _

theorem halts_placeAndStream (man : Manifest) (recipe : Recipe) (seed start llmElapsed : ℤ) :
    Halts (pipeline okMan okRecipe) (placeAndStream o req man recipe seed start llmElapsed) := by
  unfold placeAndStream
  cases o.place recipe seed req.bounds man with
  | error err =>
    refine halts_call (fun _ => rfl) fun cancelled _ => ?_
    cases cancelled with
    | true => exact halts_ret
    | false => exact halts_sendError _ _ _ _
  | ok entries => exact halts_of_stops (stops_stream o req recipe seed entries start llmElapsed) _

theorem halts_afterRecipe (man : Manifest) (start llmElapsed : ℤ) (result : Except Err Recipe) :
    Halts (pipeline okMan okRecipe) (afterRecipe o req man start llmElapsed result) := by
  cases result with
  | error err => exact halts_reportRecipeError req err
  | ok recipe =>
    exact halts_of_yields (yields_chooseSeed req) fun seed _ =>
      halts_placeAndStream o req man (clampCounts recipe) seed start llmElapsed

/-- **Nothing after a Send that failed.** -/
theorem run_halts : Halts (pipeline okMan okRecipe) (run o req) := by
  rw [run_eq]
  refine halts_call (fun _ => rfl) fun start _ => halts_call (fun _ => rfl) fun ready _ => ?_
  cases ready with
  | false => exact halts_sendError _ _ _ _
  | true =>
    refine halts_call (fun _ => rfl) fun man _ => ?_
    show Halts _ (runWithManifest o req start man)
    rw [runWithManifest_eq]
    refine halts_call (fun _ => rfl) fun llmStart _ => ?_
    exact halts_of_yields (yields_recipeAttempts req man 2 "" _) fun result _ =>
      halts_call (fun _ => rfl) fun llmEnd _ => halts_afterRecipe o req man start _ result

/-- **What is written** is an initial part of what is handed over. -/
theorem written_prefix {evs : List (Event Eff Resp)} {q : Run Unit} (ht : Trace (run o req) evs q) :
    writtenMessages evs <+: sentMessages evs := by
  have hhalts : Halts (pipeline (fun _ => True) fun _ => True) (run o req) := run_halts o req
  refine hhalts.smooth_prefix (allowed_of_true evs) ht (fun ev hok => ?_) fun ev hfails => ?_
  · obtain ⟨e, r⟩ := ev
    cases e with
    | send msg => exact if_pos hok
    | _ => rfl
  · obtain ⟨e, r⟩ := ev
    cases e with
    | send msg => exact if_neg hfails
    | _ => rfl

end Stages

end AetherForge
