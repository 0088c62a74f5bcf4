import AetherForge.Backend.RecordReplay

/-!
# What a directory of recordings answers

Any number of calls through the recorder, and a replay request after them.  A recording is found
by the text that its prompt and its prior error make together, so two requests whose texts agree
share a file.

* `recordCalls_file` — after any calls, a file holds the last recipe recorded under its text;
* `replay_recorded_iff` — a replay serves the last recipe recorded for the very request, and
  fails without one, exactly when the recordings are `KeptApart`;
* `keptApart_of_no_separator` — they are when no prompt contains the separator;
* `borrowed_recording` — a request that was never recorded is served another one's recipe.
-/

namespace AetherForge

open Go GoJson

/-! ### Recording a sequence of calls -/

/-- The text that `requestKey` hashes. -/
def keyText (prompt priorError : String) : String := prompt ++ "\x1f" ++ priorError

/-- A sequence of calls through a recorder; the calls that succeeded, in order.  `none` when one
of them panics. -/
def recordCalls {σ : Type} (recorder : Client (σ × Directory)) :
    List Request → σ × Directory → Option (List RecordedCall × (σ × Directory))
  | [], s => some ([], s)
  | req :: rest, s =>
    match recorder req s with
    | none => none
    | some (.ok (some r), s') =>
      (recordCalls recorder rest s').map fun t =>
        (⟨req.prompt, req.priorError, r⟩ :: t.1, t.2)
    | some (_, s') => recordCalls recorder rest s'

/-- The last recording made for a request. -/
def latestFor (log : List RecordedCall) (req : Request) : Option RecordedCall :=
  log.findRev? fun c => c.prompt = req.prompt ∧ c.priorError = req.priorError

/-- The last recording under a request's text. -/
def latestUnderKey (log : List RecordedCall) (req : Request) : Option RecordedCall :=
  log.findRev? fun c => keyText c.prompt c.priorError = keyText req.prompt req.priorError

section Latest

variable {log : List RecordedCall} {req : Request} {c : RecordedCall}

theorem latestUnderKey_cons (c : RecordedCall) (log : List RecordedCall) (req : Request) :
    latestUnderKey (c :: log) req = (latestUnderKey log req).or
      (if keyText c.prompt c.priorError = keyText req.prompt req.priorError then some c
        else none) := by
  simp only [latestUnderKey, List.findRev?_eq_find?_reverse, List.reverse_cons, List.find?_append,
    List.find?_singleton, decide_eq_true_eq]

theorem mem_of_latestUnderKey (h : latestUnderKey log req = some c) :
    c ∈ log ∧ keyText c.prompt c.priorError = keyText req.prompt req.priorError := by
  rw [latestUnderKey, List.findRev?_eq_find?_reverse] at h
  have hkey := List.find?_some h
  exact ⟨List.mem_reverse.mp (List.mem_of_find?_eq_some h), of_decide_eq_true hkey⟩

/-- A recording made for the request is one under its text. -/
theorem latestFor_eq_none (h : latestUnderKey log req = none) : latestFor log req = none := by
  rw [latestUnderKey, List.findRev?_eq_find?_reverse, List.find?_eq_none] at h
  rw [latestFor, List.findRev?_eq_find?_reverse, List.find?_eq_none]
  intro c hc hown
  obtain ⟨hprompt, hprior⟩ := of_decide_eq_true hown
  exact h c hc (decide_eq_true (by rw [hprompt, hprior]))

/-- The last recording under the request's text, when made for the request, is the last one that
was. -/
theorem latestFor_of_latestUnderKey (h : latestUnderKey log req = some c)
    (hc : c.prompt = req.prompt ∧ c.priorError = req.priorError) :
    latestFor log req = some c := by
  rw [latestUnderKey, List.findRev?_eq_find?_reverse, List.find?_eq_some_iff_append] at h
  rw [latestFor, List.findRev?_eq_find?_reverse, List.find?_eq_some_iff_append]
  obtain ⟨-, later, earlier, hlog, hlater⟩ := h
  refine ⟨decide_eq_true hc, later, earlier, hlog, fun c' hc' => ?_⟩
  -- a later one made for the request would be under its text
  have hother := hlater c' hc'
  simp only [Bool.not_eq_true', decide_eq_false_iff_not] at hother ⊢
  exact fun hown => hother (by rw [hown.1, hown.2])

end Latest

section Files

variable {hash : String → String} {dir : String} {σ : Type}

/-- Two requests share a file exactly when their texts agree. -/
theorem recordingPath_eq_iff (hhash : Function.Injective hash) {req req' : Request} :
    recordingPath hash dir req = recordingPath hash dir req' ↔
      keyText req.prompt req.priorError = keyText req'.prompt req'.priorError := by
  constructor
  · intro h
    have hkey : requestKey hash req = requestKey hash req' := by
      simpa [recordingPath, String.ext_iff] using h
    exact hhash hkey
  · intro h
    rw [recordingPath, recordingPath, requestKey, requestKey]
    rw [keyText, keyText] at h
    rw [h]

/-- **What a file holds** after any calls: the last recipe recorded under its text, or what it
held before. -/
theorem recordCalls_file (hhash : Function.Injective hash) {inner : InnerClient σ}
    {reqs : List Request} {s s' : σ} {files files' : Directory} {log : List RecordedCall}
    (h : recordCalls (recordingClient hash dir inner.call) reqs (s, files) =
      some (log, (s', files'))) (req : Request) :
    (∀ c ∈ log, c.recipe.Representable) ∧
      files' (recordingPath hash dir req) =
        ((latestUnderKey log req).map encodeRecordedCall).or
          (files (recordingPath hash dir req)) := by
  induction reqs generalizing s files log with
  | nil =>
    cases h
    exact ⟨by simp, rfl⟩
  | cons req₀ rest ih =>
    rw [recordCalls] at h
    cases hcall : recordingClient hash dir inner.call req₀ (s, files) with
    | none => rw [hcall] at h; cases h
    | some t =>
      obtain ⟨outcome, s₁, files₁⟩ := t
      obtain ⟨hinner, hcases⟩ := recording_cases hcall
      rw [hcall] at h
      rcases hcases with ⟨err, rfl, rfl⟩ | ⟨r, rfl, rfl⟩
      · exact ih h
      · obtain ⟨⟨log₁, s₂⟩, hrest, hlog⟩ := Option.map_eq_some_iff.mp h
        cases hlog
        obtain ⟨hrep, hfile⟩ := ih hrest
        refine ⟨List.forall_mem_cons.mpr
          ⟨inner.representable _ _ _ _ hinner, hrep⟩, ?_⟩
        rw [hfile, latestUnderKey_cons]
        by_cases hkey : keyText req₀.prompt req₀.priorError = keyText req.prompt req.priorError
        · rw [if_pos hkey, ← (recordingPath_eq_iff hhash).mpr hkey, Function.update_self]
          cases latestUnderKey log₁ req <;> rfl
        · rw [if_neg hkey, Option.or_none, Function.update_of_ne]
          intro heq
          exact hkey ((recordingPath_eq_iff hhash).mp heq.symm)

end Files

/-! ### Replaying after them -/

/-- The last recording under the request's text was made for the request itself, or carries the
recipe of the last one that was. -/
def KeptApart (log : List RecordedCall) (req : Request) : Prop :=
  ∀ c, latestUnderKey log req = some c →
    (c.prompt = req.prompt ∧ c.priorError = req.priorError) ∨
      ∃ c', latestFor log req = some c' ∧ c'.recipe = c.recipe

/-- With a recording under the request's text, being kept apart means that the last one made for
the request carries its recipe. -/
theorem keptApart_iff {log : List RecordedCall} {req : Request} {c : RecordedCall}
    (h : latestUnderKey log req = some c) :
    KeptApart log req ↔ ∃ c', latestFor log req = some c' ∧ c'.recipe = c.recipe := by
  constructor
  · intro happart
    rcases happart c h with hown | hother
    · exact ⟨c, latestFor_of_latestUnderKey h hown, rfl⟩
    · exact hother
  · intro hother c₁ hc₁
    cases h.symm.trans hc₁
    exact .inr hother

/-- **A replay after any calls** serves the last recipe under the request's text, and fails when
there is none. -/
theorem replay_after {σ : Type} {hash : String → String} (hhash : Function.Injective hash)
    {dir : String} (explain : Json → String) {inner : InnerClient σ} {reqs : List Request}
    {s s' : σ} {files : Directory} {log : List RecordedCall}
    (hrun : recordCalls (recordingClient hash dir inner.call) reqs (s, emptyDirectory) =
      some (log, (s', files))) (req : Request) :
    (latestUnderKey log req = none ∧
      ∃ err, replayClient hash dir explain req files = some (.error err, files)) ∨
    ∃ c, latestUnderKey log req = some c ∧
      replayClient hash dir explain req files = some (.ok (some c.recipe), files) := by
  obtain ⟨hrep, hfile⟩ := recordCalls_file hhash hrun req
  cases hkey : latestUnderKey log req with
  | none =>
    have hmiss : files (recordingPath hash dir req) = none := by
      rw [hfile, hkey]
      rfl
    obtain ⟨text, hreplay⟩ := replay_miss explain hmiss
    exact .inl ⟨rfl, _, hreplay⟩
  | some c =>
    have hhit : files (recordingPath hash dir req) =
        some (encodeRecordedCall ⟨c.prompt, c.priorError, c.recipe⟩) := by
      rw [hfile, hkey]
      rfl
    exact .inr ⟨c, rfl, replay_hit (hrep c (mem_of_latestUnderKey hkey).1) hhit⟩

/-- **Recordings are keyed by request exactly when they are kept apart.**  After any calls
through the recorder, a replay serves the last recipe recorded for the very prompt and prior
error, and fails when there is none, exactly when the last recording under the request's text is
its own, or carries the same recipe. -/
theorem replay_recorded_iff (hash : String → String) (hhash : Function.Injective hash)
    (dir : String) (explain : Json → String) {σ : Type} (inner : InnerClient σ)
    (reqs : List Request) (s s' : σ) (files : Directory) (log : List RecordedCall)
    (hrun : recordCalls (recordingClient hash dir inner.call) reqs (s, emptyDirectory) =
      some (log, (s', files))) (req : Request) :
    ((∀ c, latestFor log req = some c →
        replayClient hash dir explain req files = some (.ok (some c.recipe), files)) ∧
      (latestFor log req = none →
        ∃ err, replayClient hash dir explain req files = some (.error err, files))) ↔
    KeptApart log req := by
  rcases replay_after hhash explain hrun req with ⟨hkey, err, herr⟩ | ⟨c, hkey, hserved⟩
  · -- nothing under the text, so nothing was recorded for the request either
    refine iff_of_true ⟨fun c hc => ?_, fun _ => ⟨err, herr⟩⟩ fun c hc => ?_
    · cases (latestFor_eq_none hkey).symm.trans hc
    · cases hkey.symm.trans hc
  rw [keptApart_iff hkey, hserved]
  constructor
  · rintro ⟨hlast, hnone⟩
    cases hfor : latestFor log req with
    | none =>
      obtain ⟨err, herr⟩ := hnone hfor
      cases herr
    | some c' =>
      have hsame := hlast c' hfor
      injection hsame with hsame
      injection (Prod.mk.inj hsame).1 with hsome
      injection hsome with hrecipe
      exact ⟨c', rfl, hrecipe.symm⟩
  · rintro ⟨c', hfor, hrecipe⟩
    refine ⟨fun c₁ hc₁ => ?_, fun hnone => ?_⟩
    · cases hfor.symm.trans hc₁
      rw [hrecipe]
    · cases hfor.symm.trans hnone

/-- Two texts whose prompts do not contain the separator agree only for equal requests. -/
theorem keyText_inj {prompt prompt' priorError priorError' : String}
    (h₁ : '\x1f' ∉ prompt.toList) (h₂ : '\x1f' ∉ prompt'.toList)
    (h : keyText prompt priorError = keyText prompt' priorError') :
    prompt = prompt' ∧ priorError = priorError' := by
  have hlist := congrArg String.toList h
  simp only [keyText, String.toList_append, List.append_assoc] at hlist
  -- the first separator of either text ends its prompt
  have hfirst : ∀ (l rest : List Char), '\x1f' ∉ l →
      (l ++ ("\x1f".toList ++ rest)).idxOf '\x1f' = l.length := by
    intro l rest hl
    rw [List.idxOf_append_of_notMem hl]
    rfl
  have hlen : prompt.toList.length = prompt'.toList.length := by
    rw [← hfirst _ priorError.toList h₁, ← hfirst _ priorError'.toList h₂, hlist]
  obtain ⟨hprompt, hprior⟩ := List.append_inj hlist hlen
  exact ⟨String.toList_injective hprompt, String.toList_injective (List.append_cancel_left hprior)⟩

/-- Recordings of prompts without the separator are kept apart. -/
theorem keptApart_of_no_separator {log : List RecordedCall} {req : Request}
    (hlog : ∀ c ∈ log, '\x1f' ∉ c.prompt.toList) (hreq : '\x1f' ∉ req.prompt.toList) :
    KeptApart log req := by
  intro c hc
  obtain ⟨hmem, hkey⟩ := mem_of_latestUnderKey hc
  exact .inl (keyText_inj (hlog c hmem) hreq hkey)

/-! ### A borrowed recording -/

/-- A request whose prompt contains the separator, on its retry. -/
def recordedRequest : Request :=
  ⟨"a meadow\x1fcategories.x", meadowManifest,
    "categories.y is not a key in the advertised manifest"⟩

/-- Another request with the same text: the model had named a category with a separator. -/
def borrowingRequest : Request :=
  ⟨"a meadow", meadowManifest,
    "categories.x\x1fcategories.y is not a key in the advertised manifest"⟩

/-- The directory with one more recording. -/
def withRecording (req : Request) (r : Recipe) (files : Directory) : Directory :=
  Function.update files (recordingPath id "rec" req)
    (some (encodeRecordedCall ⟨req.prompt, req.priorError, r⟩))

theorem meadowRecipe_representable : meadowRecipe.Representable := by decide +kernel

/-- The model answers with the meadow. -/
def meadowAnswers : List Answer := [.recipe meadowRecipe meadowRecipe_representable]

/-- **A recording made for another request is served.** -/
theorem borrowed_recording :
    ∃ log s files, recordCalls (recordingClient id "rec" scriptedClient.call) [recordedRequest]
        (meadowAnswers, emptyDirectory) = some (log, (s, files)) ∧
      latestFor log borrowingRequest = none ∧
      replayClient id "rec" (fun _ => "") borrowingRequest files =
        some (.ok (some meadowRecipe), files) := by
  refine ⟨[⟨recordedRequest.prompt, recordedRequest.priorError, meadowRecipe⟩], [],
    withRecording recordedRequest meadowRecipe emptyDirectory, rfl, by decide, ?_⟩
  have hpath : recordingPath id "rec" borrowingRequest = recordingPath id "rec" recordedRequest :=
    (recordingPath_eq_iff Function.injective_id).mpr (by decide +kernel)
  have hfile : withRecording recordedRequest meadowRecipe emptyDirectory
      (recordingPath id "rec" borrowingRequest) = some (encodeRecordedCall
        ⟨recordedRequest.prompt, recordedRequest.priorError, meadowRecipe⟩) := by
    rw [hpath, withRecording, Function.update_self]
  exact replay_hit (by decide +kernel) hfile

/-- The model answers with nothing to place, and then with the meadow. -/
def secondThoughts : List Answer := .recipe ⟨.make []⟩ (by decide +kernel) :: meadowAnswers

/-- The same request recorded twice: the second recipe is served. -/
theorem replay_recorded_overwritten :
    ∃ log s files, recordCalls (recordingClient id "rec" scriptedClient.call)
        [borrowingRequest, borrowingRequest]
        (secondThoughts, emptyDirectory) = some (log, (s, files)) ∧
      KeptApart log borrowingRequest ∧
      replayClient id "rec" (fun _ => "") borrowingRequest files =
        some (.ok (some meadowRecipe), files) := by
  have hrun : recordCalls (recordingClient id "rec" scriptedClient.call)
      [borrowingRequest, borrowingRequest]
      (secondThoughts, emptyDirectory) =
      some ([⟨borrowingRequest.prompt, borrowingRequest.priorError, ⟨.make []⟩⟩,
          ⟨borrowingRequest.prompt, borrowingRequest.priorError, meadowRecipe⟩],
        ([], withRecording borrowingRequest meadowRecipe
          (withRecording borrowingRequest ⟨.make []⟩ emptyDirectory))) := rfl
  have hlatest : latestFor [⟨borrowingRequest.prompt, borrowingRequest.priorError, ⟨.make []⟩⟩,
      ⟨borrowingRequest.prompt, borrowingRequest.priorError, meadowRecipe⟩] borrowingRequest =
        some ⟨borrowingRequest.prompt, borrowingRequest.priorError, meadowRecipe⟩ := rfl
  have hapart : KeptApart [⟨borrowingRequest.prompt, borrowingRequest.priorError, ⟨.make []⟩⟩,
      ⟨borrowingRequest.prompt, borrowingRequest.priorError, meadowRecipe⟩] borrowingRequest :=
    fun c hc => .inr ⟨_, hlatest, by cases hc; rfl⟩
  exact ⟨_, _, _, hrun, hapart, ((replay_recorded_iff id Function.injective_id "rec" (fun _ => "")
    scriptedClient _ _ _ _ _ hrun borrowingRequest).mpr hapart).1 _ hlatest⟩

end AetherForge
