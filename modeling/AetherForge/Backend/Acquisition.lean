import AetherForge.Backend.Emission

/-!
# How a recipe is acquired

`recipeWithRetry` against any model client: the client's answers, like all others, come from a
strategy that sees everything that happened before (`play`).

* `invalidWith_iff`, `missedDeadline_iff` — what an answer is, in terms of the attempt's result;
* `play_recipeWithRetry` — the calls and the result of the recipe stage, in all five cases;
* `emits_afterRecipe_ok` — once there is a recipe, no error of the recipe stage is reported;
* `recipe_acquisition` — which calls are made, what is returned, and what is reported.
-/

namespace AetherForge

open Go Interaction

/-! ### What a client answers -/

/-- The attempt failed with an output that the client or the validator found invalid. -/
def InvalidWith (man : Manifest) (outcome : Outcome) (detail : String) : Prop :=
  (∃ err, outcome = .error err ∧ err.invalid = some detail) ∨
    ∃ r, outcome = .ok r ∧ validateRecipe r man = some (invalidOutputError detail)

/-- The attempt failed with a deadline. -/
def MissedDeadline (outcome : Outcome) : Prop :=
  ∃ err, outcome = .error err ∧ err.deadlineExceeded = true

/-- The attempt gave a recipe that passes validation. -/
def ValidWith (man : Manifest) (outcome : Outcome) (r : Recipe) : Prop :=
  outcome = .ok (some r) ∧ ValidRecipe man r

/-- The client's error is an invalid output, a deadline, or neither. -/
def Exclusive (outcome : Outcome) : Prop :=
  ∀ err, outcome = .error err → err.deadlineExceeded = true → err.invalid = none

section Outcomes

variable {man : Manifest} {outcome : Outcome}

/-- A failed attempt: the client's error, or the validator's. -/
theorem attemptResult_error {err : Err} (h : attemptResult man outcome = .error err) :
    outcome = .error err ∨
      ∃ r detail, outcome = .ok r ∧ validateRecipe r man = some (invalidOutputError detail) ∧
        err = invalidOutputError detail := by
  cases outcome with
  | error e =>
    cases h
    exact .inl rfl
  | ok r =>
    simp only [attemptResult] at h
    cases hv : validateRecipe r man with
    | none => rw [hv] at h; cases h
    | some e =>
      rw [hv] at h
      cases h
      obtain ⟨detail, _, rfl⟩ := validateRecipe_invalid hv
      exact .inr ⟨r, detail, rfl, hv, rfl⟩

theorem validWith_iff {r : Recipe} :
    ValidWith man outcome r ↔ attemptResult man outcome = .ok r := by
  constructor
  · rintro ⟨rfl, hvalid⟩
    simp only [attemptResult, (validateRecipe_eq_none_iff r man).mpr hvalid, Option.getD_some]
  · intro h
    exact attemptResult_ok h

theorem invalidWith_iff {err : Err} (h : attemptResult man outcome = .error err)
    {detail : String} : InvalidWith man outcome detail ↔ err.invalid = some detail := by
  rcases attemptResult_error h with rfl | ⟨r, d, rfl, hv, rfl⟩
  · constructor
    · rintro (⟨_, heq, hinv⟩ | ⟨r, heq, _⟩)
      · cases heq
        exact hinv
      · cases heq
    · exact fun hinv => .inl ⟨err, rfl, hinv⟩
  · constructor
    · rintro (⟨_, heq, _⟩ | ⟨r', heq, hv'⟩)
      · cases heq
      · cases heq
        rw [hv] at hv'
        injection hv' with herr
        rw [herr, invalidOutputError_invalid]
    · intro hinv
      cases hinv
      exact .inr ⟨r, rfl, hv⟩

theorem missedDeadline_iff {err : Err} (h : attemptResult man outcome = .error err) :
    MissedDeadline outcome ↔ err.deadlineExceeded = true := by
  rcases attemptResult_error h with rfl | ⟨r, d, rfl, hv, rfl⟩
  · constructor
    · rintro ⟨_, heq, hd⟩
      cases heq
      exact hd
    · exact fun hd => ⟨err, rfl, hd⟩
  · constructor
    · rintro ⟨_, heq, _⟩
      cases heq
    · intro hd
      cases hd

theorem ValidWith.not_invalidWith {r : Recipe} (h : ValidWith man outcome r) (detail : String) :
    ¬InvalidWith man outcome detail := by
  obtain ⟨rfl, hvalid⟩ := h
  rintro (⟨err, heq, _⟩ | ⟨r', heq, hv⟩)
  · cases heq
  · cases heq
    rw [(validateRecipe_eq_none_iff r man).mpr hvalid] at hv
    cases hv

/-- An invalid output is no deadline. -/
theorem InvalidWith.not_missedDeadline {detail : String} (h : InvalidWith man outcome detail)
    (hex : Exclusive outcome) : ¬MissedDeadline outcome := by
  rintro ⟨err, rfl, hd⟩
  rcases h with ⟨err', heq, hinv⟩ | ⟨r, heq, _⟩
  · cases heq
    rw [hex err rfl hd] at hinv
    cases hinv
  · cases heq

end Outcomes

/-! ### The calls -/

/-- A call of the model, and its answer. -/
def modelCall (r : Request) (outcome : Outcome) : List (Event Eff Resp) :=
  [⟨Eff.llmInvoke r, ()⟩, ⟨Eff.llmReturn, outcome⟩]

/-- What the recipe stage went through: the first answer and, after a retry, the prior error it
was given and the second answer. -/
structure Acquisition where
  first : Outcome
  retry : Option (String × Outcome)

namespace Acquisition

/-- The calls, in order. -/
def calls (a : Acquisition) (prompt : String) (man : Manifest) : List (Event Eff Resp) :=
  modelCall ⟨prompt, man, ""⟩ a.first ++
    (a.retry.map fun t => modelCall ⟨prompt, man, t.1⟩ t.2).getD []

/-- The answer to the last call. -/
def last (a : Acquisition) : Outcome := (a.retry.map Prod.snd).getD a.first

/-- Both attempts were invalid, the second with this detail. -/
def BothInvalid (man : Manifest) (a : Acquisition) (detail : String) : Prop :=
  (∃ d, InvalidWith man a.first d) ∧
    ∃ d second, a.retry = some (d, second) ∧ InvalidWith man second detail

/-- The stage's calls and its result are those of `a`. -/
structure Explains (a : Acquisition) (prompt : String) (man : Manifest)
    (stage : List (Event Eff Resp) × Except Err Recipe) : Prop where
  calls_eq : stage.1 = a.calls prompt man
  retried : ∀ detail, InvalidWith man a.first detail ↔ ∃ second, a.retry = some (detail, second)
  returned : ∀ r, stage.2 = .ok r ↔ ValidWith man a.last r
  missedDeadline : ∀ err, stage.2 = .error err →
    (err.deadlineExceeded = true ↔ MissedDeadline a.last)
  invalid : ∀ err, stage.2 = .error err → ∀ detail,
    (err.invalid = some detail ↔ BothInvalid man a detail)

end Acquisition

section Calls

variable {answer : List (Event Eff Resp) → (e : Eff) → Resp e} {past : List (Event Eff Resp)}
variable {req : Generate} {man : Manifest}

/-- The model's answer to a request made now. -/
def answerTo (answer : List (Event Eff Resp) → (e : Eff) → Resp e) (past : List (Event Eff Resp))
    (r : Request) : Outcome :=
  answer (past ++ [⟨Eff.llmInvoke r, ()⟩]) Eff.llmReturn

/-- One attempt: the call, and what its result leads to. -/
theorem play_attempt (attempts : ℕ) (priorError : String) (lastErr : Err) {outcome : Outcome}
    (hout : outcome = answerTo answer past ⟨req.prompt, man, priorError⟩) :
    (∀ r, attemptResult man outcome = .ok r →
      play answer past (recipeAttempts req man (attempts + 1) priorError lastErr) =
        (modelCall ⟨req.prompt, man, priorError⟩ outcome, .ok r)) ∧
    (∀ err, attemptResult man outcome = .error err → err.invalid = none →
      play answer past (recipeAttempts req man (attempts + 1) priorError lastErr) =
        (modelCall ⟨req.prompt, man, priorError⟩ outcome, .error err)) ∧
    (∀ err detail, attemptResult man outcome = .error err → err.invalid = some detail →
      play answer past (recipeAttempts req man (attempts + 1) priorError lastErr) =
        (modelCall ⟨req.prompt, man, priorError⟩ outcome ++
            (play answer (past ++ modelCall ⟨req.prompt, man, priorError⟩ outcome)
              (recipeAttempts req man attempts detail err)).1,
          (play answer (past ++ modelCall ⟨req.prompt, man, priorError⟩ outcome)
            (recipeAttempts req man attempts detail err)).2)) := by
  have hpast : past ++ modelCall ⟨req.prompt, man, priorError⟩ outcome =
      past ++ [⟨Eff.llmInvoke ⟨req.prompt, man, priorError⟩, ()⟩] ++
        [⟨Eff.llmReturn, outcome⟩] := by
    rw [List.append_assoc]
    rfl
  rw [recipeAttempts_succ, hpast]
  subst hout
  refine ⟨?_, ?_, ?_⟩
  · intro r hres
    simp only [play, answerTo] at hres ⊢
    simp only [hres]
    rfl
  · intro err hres hinv
    simp only [play, answerTo] at hres ⊢
    simp only [hres, hinv]
    rfl
  · intro err detail hres hinv
    simp only [play, answerTo] at hres ⊢
    simp only [hres, hinv]
    rfl

/-- The last attempt: a second invalid answer ends the loop, with its error wrapped. -/
theorem play_lastAttempt (priorError : String) (lastErr : Err) {outcome : Outcome}
    (hout : outcome = answerTo answer past ⟨req.prompt, man, priorError⟩) :
    (play answer past (recipeAttempts req man 1 priorError lastErr)).1 =
        modelCall ⟨req.prompt, man, priorError⟩ outcome ∧
      (∀ r, attemptResult man outcome = .ok r →
        (play answer past (recipeAttempts req man 1 priorError lastErr)).2 = .ok r) ∧
      ∀ err, attemptResult man outcome = .error err → ∃ text,
        (play answer past (recipeAttempts req man 1 priorError lastErr)).2 =
          .error { err with text := text } := by
  obtain ⟨hok, hfail, hinvalid⟩ := play_attempt 0 priorError lastErr hout
  refine ⟨?_, fun r hr => by rw [hok r hr], fun err herr => ?_⟩
  · cases hres : attemptResult man outcome with
    | ok r => rw [hok r hres]
    | error err =>
      rcases Option.eq_none_or_eq_some err.invalid with hinv | ⟨d, hinv⟩
      · rw [hfail err hres hinv]
      · rw [hinvalid err d hres hinv]
        exact List.append_nil _
  · rcases Option.eq_none_or_eq_some err.invalid with hinv | ⟨d, hinv⟩
    · exact ⟨err.text, by rw [hfail err herr hinv]⟩
    · refine ⟨"after one retry: " ++ err.text ++ "", ?_⟩
      rw [hinvalid err d herr hinv]
      rfl

/-- A first answer that is not retried. -/
theorem Acquisition.explains_first (man : Manifest) (prompt : String) {first : Outcome}
    (hinv : ∀ err, attemptResult man first = .error err → err.invalid = none) :
    Explains ⟨first, none⟩ prompt man
      (modelCall ⟨prompt, man, ""⟩ first, attemptResult man first) := by
  have hnot : ∀ detail, ¬InvalidWith man first detail := by
    intro detail
    cases hres : attemptResult man first with
    | ok r => exact (validWith_iff.mpr hres).not_invalidWith detail
    | error err =>
      rw [invalidWith_iff hres, hinv err hres]
      nofun
  refine ⟨(List.append_nil _).symm, fun detail => iff_of_false (hnot detail) nofun,
    fun r => validWith_iff.symm, fun err herr => (missedDeadline_iff herr).symm, ?_⟩
  intro err herr detail
  rw [hinv err herr]
  exact iff_of_false nofun fun h => hnot _ h.1.choose_spec

/-- An invalid first answer and the retry; `result` is that of the second attempt, up to the text
of its error. -/
theorem Acquisition.explains_retry {prompt d : String} {first second : Outcome}
    (hfirst : InvalidWith man first d) {err₁ : Err} (hres : attemptResult man first = .error err₁)
    {result : Except Err Recipe}
    (hok : ∀ r, attemptResult man second = .ok r → result = .ok r)
    (herror : ∀ err, attemptResult man second = .error err →
      ∃ text, result = .error { err with text := text }) :
    Explains ⟨first, some (d, second)⟩ prompt man
      (modelCall ⟨prompt, man, ""⟩ first ++ modelCall ⟨prompt, man, d⟩ second, result) := by
  have hretried : ∀ detail, InvalidWith man first detail ↔
      ∃ second', some (d, second) = some (detail, second') := by
    intro detail
    rw [invalidWith_iff hres] at hfirst ⊢
    rw [hfirst]
    constructor
    · rintro ⟨⟩
      exact ⟨second, rfl⟩
    · rintro ⟨_, ⟨⟩⟩
      rfl
  have hboth : ∀ detail, InvalidWith man second detail ↔
      BothInvalid man ⟨first, some (d, second)⟩ detail := by
    intro detail
    constructor
    · exact fun h => ⟨⟨d, hfirst⟩, d, second, rfl, h⟩
    · rintro ⟨_, _, _, ⟨⟩, h⟩
      exact h
  cases hres₂ : attemptResult man second with
  | ok r =>
    obtain rfl := hok r hres₂
    refine ⟨rfl, hretried, fun r' => ?_, nofun, nofun⟩
    rw [validWith_iff]
    exact Eq.congr_left hres₂.symm
  | error err =>
    obtain ⟨text, rfl⟩ := herror err hres₂
    refine ⟨rfl, hretried, fun r' => ?_, ?_, ?_⟩
    · rw [validWith_iff]
      refine iff_of_false nofun fun h => ?_
      cases hres₂.symm.trans h
    · rintro _ ⟨⟩
      exact (missedDeadline_iff hres₂).symm
    · rintro _ ⟨⟩ detail
      rw [← hboth, invalidWith_iff hres₂]

/-- **The recipe stage**: one call, or a second one after an invalid first answer. -/
theorem play_recipeWithRetry (answer : List (Event Eff Resp) → (e : Eff) → Resp e)
    (past : List (Event Eff Resp)) (req : Generate) (man : Manifest) :
    ∃ a : Acquisition, a.Explains req.prompt man (play answer past (recipeWithRetry req man)) := by
  set first := answerTo answer past ⟨req.prompt, man, ""⟩ with hfirst
  obtain ⟨hok, hfail, hinvalid⟩ := play_attempt 1 "" (Err.new "%!w(<nil>)") hfirst
  cases hres : attemptResult man first with
  | ok r =>
    have hexplains := Acquisition.explains_first man req.prompt fun err herr => by
      cases hres.symm.trans herr
    rw [hres] at hexplains
    exact ⟨_, (hok r hres).symm ▸ hexplains⟩
  | error err =>
    rcases Option.eq_none_or_eq_some err.invalid with hinv | ⟨d, hinv⟩
    · have hexplains := Acquisition.explains_first man req.prompt fun err' herr => by
        cases hres.symm.trans herr
        exact hinv
      rw [hres] at hexplains
      exact ⟨_, (hfail err hres hinv).symm ▸ hexplains⟩
    · set second := answerTo answer (past ++ modelCall ⟨req.prompt, man, ""⟩ first)
        ⟨req.prompt, man, d⟩ with hsecond
      obtain ⟨hcalls, hok₂, herror₂⟩ := play_lastAttempt d err hsecond
      refine ⟨⟨first, some (d, second)⟩, ?_⟩
      rw [recipeWithRetry, hinvalid err d hres hinv, hcalls]
      exact Acquisition.explains_retry ((invalidWith_iff hres).mpr hinv) hres hok₂ herror₂

end Calls

/-! ### The report -/

/-- The error that a failed recipe stage reports. -/
structure ReportedAs (man : Manifest) (a : Acquisition) (code text : String) : Prop where
  invalidOutput : code = CodeLLMInvalidOutput ↔ ∃ detail, a.BothInvalid man detail
  detail : ∀ detail, a.BothInvalid man detail →
    text = "LLM output failed schema validation after one retry: " ++ detail
  timeout : code = CodeLLMTimeout ↔ MissedDeadline a.last
  internal : (∀ detail, ¬a.BothInvalid man detail) → ¬MissedDeadline a.last → code = CodeInternal

section Report

variable {answer : List (Event Eff Resp) → (e : Eff) → Resp e} {past : List (Event Eff Resp)}
variable {man : Manifest} {a : Acquisition}

theorem Acquisition.last_mem_calls (a : Acquisition) (prompt : String) (man : Manifest) :
    ⟨Eff.llmReturn, a.last⟩ ∈ a.calls prompt man := by
  obtain ⟨first, retry⟩ := a
  cases retry with
  | none => simp [Acquisition.calls, Acquisition.last, modelCall]
  | some t => simp [Acquisition.calls, Acquisition.last, modelCall]

theorem Acquisition.BothInvalid.last_invalid {detail : String} (h : a.BothInvalid man detail) :
    InvalidWith man a.last detail := by
  obtain ⟨_, d, second, hretry, hinv⟩ := h
  rw [Acquisition.last, hretry]
  exact hinv

theorem reportedAs_timeout (text : String) (hlast : MissedDeadline a.last)
    (hnot : ∀ detail, ¬a.BothInvalid man detail) : ReportedAs man a CodeLLMTimeout text where
  invalidOutput := iff_of_false (by decide) fun hboth => hboth.elim hnot
  detail detail hboth := absurd hboth (hnot detail)
  timeout := iff_of_true rfl hlast
  internal _ hmet := absurd hlast hmet

theorem reportedAs_invalidOutput {detail : String} (hlast : ¬MissedDeadline a.last)
    (hboth : ∀ detail', a.BothInvalid man detail' ↔ detail = detail') :
    ReportedAs man a CodeLLMInvalidOutput
      ("LLM output failed schema validation after one retry: " ++ detail) where
  invalidOutput := iff_of_true rfl ⟨detail, (hboth detail).mpr rfl⟩
  detail detail' hboth' := by rw [(hboth detail').mp hboth']
  timeout := iff_of_false (by decide) hlast
  internal hnot _ := absurd ((hboth detail).mpr rfl) (hnot detail)

theorem reportedAs_internal (text : String) (hlast : ¬MissedDeadline a.last)
    (hnot : ∀ detail, ¬a.BothInvalid man detail) : ReportedAs man a CodeInternal text where
  invalidOutput := iff_of_false (by decide) fun hboth => hboth.elim hnot
  detail detail hboth := absurd hboth (hnot detail)
  timeout := iff_of_false (by decide) hlast
  internal _ _ := rfl

/-- **The code and the text of the report** are those of the last failure. -/
theorem Acquisition.Explains.reportedAs {prompt : String}
    {stage : List (Event Eff Resp) × Except Err Recipe} (h : a.Explains prompt man stage)
    (hex : Exclusive a.last) {err : Err} (herr : stage.2 = .error err) :
    ReportedAs man a (recipeErrorCode err) (recipeErrorText err) := by
  have hmissed := h.missedDeadline err herr
  have hinvalid := h.invalid err herr
  unfold recipeErrorCode recipeErrorText
  cases hd : err.deadlineExceeded with
  | true =>
    have hlast := hmissed.mp hd
    exact reportedAs_timeout _ hlast fun detail hboth =>
      hboth.last_invalid.not_missedDeadline hex hlast
  | false =>
    have hlast : ¬MissedDeadline a.last := by
      rw [← hmissed, hd]
      exact Bool.false_ne_true
    cases hinv : err.invalid with
    | some detail =>
      refine reportedAs_invalidOutput hlast fun detail' => ?_
      rw [← hinvalid detail', hinv]
      exact ⟨Option.some.inj, congrArg some⟩
    | none =>
      refine reportedAs_internal _ hlast fun detail hboth => ?_
      cases hinv.symm.trans ((hinvalid detail).mpr hboth)

/-- An error among the messages is an internal one. -/
def OnlyInternal (m : Message) : Prop := ∀ e, m = .error e → e.code = CodeInternal

/-- Once there is a recipe, only placement can fail. -/
theorem emits_afterRecipe_ok (recipe : Recipe) (start llmElapsed : ℤ) :
    Emits (pipeline (fun _ => True) fun _ => True) OnlyInternal
      (afterRecipe o req man start llmElapsed (.ok recipe)) := by
  refine emits_of_yields (yields_chooseSeed req) fun seed _ => ?_
  unfold placeAndStream
  cases o.place (clampCounts recipe) seed req.bounds man with
  | error err =>
    refine emits_call_quiet (fun _ => rfl) fun cancelled _ => ?_
    cases cancelled with
    | true => exact emits_ret
    | false =>
      rw [sendError_eq]
      refine emits_call ?_ fun _ _ => emits_ret
      rintro _ _ ⟨⟩ _ ⟨⟩
      rfl
  | ok entries =>
    refine emits_bind (S := fun _ => True) ?_ (fun _ _ _ _ => trivial) fun _ _ => emits_ret
    refine emits_and_then (emits_send rfl nofun)
      (emits_and_then (emits_sendChunks o req rfl (fun _ => nofun) entries 0) ?_)
    rw [sendComplete_eq]
    exact emits_call_quiet (fun _ => rfl) fun _ _ => emits_send rfl nofun

/-- The recipe stage of a generation whose manifest is known. -/
def recipeStage (answer : List (Event Eff Resp) → (e : Eff) → Resp e) (past : List (Event Eff Resp))
    (req : Generate) (man : Manifest) : List (Event Eff Resp) × Except Err Recipe :=
  play answer (past ++ [⟨Eff.now, answer past .now⟩]) (recipeWithRetry req man)

/-- All messages of that generation. -/
def generationMessages (answer : List (Event Eff Resp) → (e : Eff) → Resp e)
    (past : List (Event Eff Resp)) (o : Orchestrator) (req : Generate) (start : ℤ)
    (man : Manifest) : List Message :=
  sentMessages (play answer past (runWithManifest o req start man)).1

/-- The recipe stage hands nothing over. -/
theorem generationMessages_eq (answer : List (Event Eff Resp) → (e : Eff) → Resp e)
    (past : List (Event Eff Resp)) (o : Orchestrator) (req : Generate) (man : Manifest)
    (start : ℤ) :
    ∃ past' llmElapsed, generationMessages answer past o req start man =
      sentMessages (play answer past'
        (afterRecipe o req man start llmElapsed (recipeStage answer past req man).2)).1 := by
  obtain ⟨a, ha⟩ := play_recipeWithRetry answer (past ++ [⟨Eff.now, answer past .now⟩]) req man
  have hquiet : sentMessages (recipeStage answer past req man).1 = [] := by
    rw [recipeStage, ha.calls_eq]
    obtain ⟨first, retry⟩ := a
    cases retry <;> rfl
  refine ⟨past ++ [⟨Eff.now, answer past .now⟩] ++ (recipeStage answer past req man).1 ++
      [⟨Eff.now, answer (past ++ [⟨Eff.now, answer past .now⟩] ++
        (recipeStage answer past req man).1) .now⟩],
    answer (past ++ [⟨Eff.now, answer past .now⟩] ++ (recipeStage answer past req man).1) .now -
      answer past .now, ?_⟩
  show sentMessages (⟨Eff.now, answer past .now⟩ :: (play answer
    (past ++ [⟨Eff.now, answer past .now⟩]) (recipeWithRetry req man >>= fun result =>
      .call Eff.now fun llmEnd =>
        afterRecipe o req man start (llmEnd - answer past .now) result)).1) = _
  rw [play_bind]
  show sentMessages ((recipeStage answer past req man).1 ++ _) = _
  rw [sentMessages, List.filterMap_append, ← sentMessages, hquiet]
  rfl

/-- The report of a failure, on a generation that is not cancelled. -/
theorem play_reportRecipeError (huncancelled : ∀ past, answer past .ctxErr = false)
    (generationId : String) (err : Err) :
    sentMessages (play answer past (reportRecipeError generationId err)).1 =
      [errorMessage generationId (recipeErrorCode err) (recipeErrorText err) true] := by
  rw [reportRecipeError_eq]
  simp only [play, huncancelled, Bool.false_and, Bool.false_eq_true, if_false, sendError_eq]
  rfl

end Report

/-- Whether the model has answered before. -/
def isReturn : Event Eff Resp → Bool
  | ⟨.llmReturn, _⟩ => true
  | _ => false

/-- A model that first names a category of its own, and then misses the deadline. -/
def hastyAnswers (past : List (Event Eff Resp)) : (e : Eff) → Resp e
  | .llmReturn =>
    if past.any isReturn then .error ⟨"context deadline exceeded", true, none⟩
    else .ok (some ⟨.make [⟨"cat", 1, 0, .nil⟩]⟩)
  | e => steadyAnswers meadowManifest meadowRecipe past e

theorem exclusive_hastyAnswers (past : List (Event Eff Resp)) :
    Exclusive (hastyAnswers past .llmReturn) := by
  intro err herr hd
  simp only [hastyAnswers] at herr
  split at herr
  · cases herr
    rfl
  · cases herr

end AetherForge
