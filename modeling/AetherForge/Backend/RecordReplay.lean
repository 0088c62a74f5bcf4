import AetherForge.Library.GoJson
import AetherForge.Backend.StreamGrammar

/-!
# Recording and replaying recipes

`RecordingClient` and `ReplayClient` of `recordreplay.go` around an arbitrary inner client, and
`recipeWithRetry` run against them.  A recording directory maps file names to contents; the
contents are the JSON value that the encoder writes.

* `decode_encodeRecordedCall` — a recorded call is read back as it was written;
* `replay_iff` — a recorded recipe is replayed exactly when the inner client's first answer was
  not rejected inside the client with a detail and then followed by an accepted recipe;
* `rejected_first_not_replayed` — such a recording, and its replay.
-/

namespace AetherForge

open Go Interaction GoJson

/-! ### recordedCall -/

structure RecordedCall where
  prompt : String
  priorError : String
  recipe : Recipe
  deriving Inhabited

def encodeCategoryRecipe (it : CategoryRecipe) : Json :=
  .obj [("Category", .str it.category), ("Count", .int it.count),
    ("Clustering", encodeFloat64 it.clustering), ("Tags", encodeSlice .str it.tags)]

def encodeRecipe (r : Recipe) : Json := .obj [("Items", encodeSlice encodeCategoryRecipe r.items)]

/-- The encoding of a `recordedCall`; an empty `prior_error` is left out. -/
def encodeRecordedCall (c : RecordedCall) : Json :=
  .obj (("prompt", .str c.prompt) ::
    ((if c.priorError = "" then [] else [("prior_error", .str c.priorError)]) ++
      [("recipe", encodeRecipe c.recipe)]))

def categoryRecipeFields : List (StructField CategoryRecipe) :=
  [.of "Category" decodeString (·.category) fun it c => { it with category := c },
    .of "Count" decodeInt64 (·.count) fun it n => { it with count := n },
    .of "Clustering" decodeFloat64 (·.clustering) fun it q => { it with clustering := q },
    .of "Tags" (decodeSlice "" decodeString) (·.tags) fun it ts => { it with tags := ts }]

def decodeCategoryRecipe : Decoder CategoryRecipe := decodeStruct false categoryRecipeFields

def recipeFields : List (StructField Recipe) :=
  [.of "Items" (decodeSlice default decodeCategoryRecipe) (·.items) fun _ items => ⟨items⟩]

def recordedCallFields : List (StructField RecordedCall) :=
  [.of "prompt" decodeString (·.prompt) fun c p => { c with prompt := p },
    .of "prior_error" decodeString (·.priorError) fun c e => { c with priorError := e },
    .of "recipe" (decodeStruct false recipeFields) (·.recipe) fun c r => { c with recipe := r }]

def decodeRecordedCall : Decoder RecordedCall := decodeStruct false recordedCallFields

/-- The numbers of the recipe are values of their Go types. -/
def Recipe.Representable (r : Recipe) : Prop :=
  ∀ it ∈ r.items.elems, InInt64 it.count ∧ InFloat64 it.clustering

instance (r : Recipe) : Decidable r.Representable :=
  inferInstanceAs (Decidable (∀ it ∈ r.items.elems, InInt64 it.count ∧ InFloat64 it.clustering))

theorem decodes_categoryRecipe {it : CategoryRecipe} (hcount : InInt64 it.count)
    (hclustering : InFloat64 it.clustering) :
    Decodes decodeCategoryRecipe (encodeCategoryRecipe it) it := by
  intro held
  show decodeFields false categoryRecipeFields _ held = some it
  rw [decodeFields_cons rfl (decodes_string _ _), decodeFields_cons rfl (decodes_int64 hcount _),
    decodeFields_cons rfl (decodes_float64 hclustering _),
    decodeFields_cons rfl (decodes_slice (fun s _ => decodes_string s) _)]
  rfl

theorem decodes_recipe {r : Recipe} (h : r.Representable) :
    Decodes (decodeStruct false recipeFields) (encodeRecipe r) r := by
  intro held
  have hitems : Decodes (decodeSlice default decodeCategoryRecipe)
      (encodeSlice encodeCategoryRecipe r.items) r.items :=
    decodes_slice fun it hit => decodes_categoryRecipe (h it hit).1 (h it hit).2
  show decodeFields false recipeFields _ held = some r
  rw [decodeFields_cons rfl (hitems _)]
  rfl

/-- **A recorded call is read back as it was written.** -/
theorem decode_encodeRecordedCall {c : RecordedCall} (h : c.recipe.Representable) :
    decodeRecordedCall (encodeRecordedCall c) default = some c := by
  show decodeFields false recordedCallFields _ default = some c
  rw [decodeFields_cons rfl (decodes_string _ _)]
  by_cases hprior : c.priorError = ""
  · rw [if_pos hprior, List.nil_append, decodeFields_cons rfl (decodes_recipe h _),
      decodeFields_nil]
    obtain ⟨prompt, priorError, recipe⟩ := c
    obtain rfl : priorError = "" := hprior
    rfl
  · rw [if_neg hprior, List.singleton_append, decodeFields_cons rfl (decodes_string _ _),
      decodeFields_cons rfl (decodes_recipe h _)]
    rfl

/-! ### The clients -/

/-- A client with a state; `none` is a panic. -/
abbrev Client (σ : Type) := Request → σ → Option (Outcome × σ)

/-- A client whose recipes are values of their Go types. -/
structure InnerClient (σ : Type) where
  call : Client σ
  representable : ∀ req s r s', call req s = some (.ok (some r), s') → r.Representable

/-- A recording directory: the contents of each file. -/
abbrev Directory := String → Option Json

def emptyDirectory : Directory := fun _ => none

section Clients

variable (hash : String → String) (dir : String) (explain : Json → String)

/-- `requestKey`, with the hash as a parameter. -/
def requestKey (req : Request) : String := hash (req.prompt ++ "\x1f" ++ req.priorError)

def recordingPath (req : Request) : String := dir ++ "/" ++ requestKey hash req ++ ".json"

/-- `RecordingClient.GenerateRecipe`; every write succeeds. -/
def recordingClient {σ : Type} (inner : Client σ) : Client (σ × Directory) := fun req s =>
  match inner req s.1 with
  | none => none
  | some (.error err, s') => some (.error err, (s', s.2))
  | some (.ok none, _) => none
  | some (.ok (some r), s') =>
    some (.ok (some r), (s', Function.update s.2 (recordingPath hash dir req)
      (some (encodeRecordedCall ⟨req.prompt, req.priorError, r⟩))))

/-- `ReplayClient.GenerateRecipe`; `explain` is what the decoder says about a value that does
not fit. -/
def replayClient : Client Directory := fun req files =>
  match files (recordingPath hash dir req) with
  | none =>
    some (.error (Err.new ("llm: no recording for prompt " ++
      quote (String.ofList (req.prompt.toList.take 60)) ++ " in " ++ dir ++ ": open " ++
      recordingPath hash dir req ++ ": no such file or directory")), files)
  | some data =>
    match decodeRecordedCall data default with
    | none =>
      some (.error (Err.new ("llm: corrupt recording " ++ recordingPath hash dir req ++ ": " ++
        explain data)), files)
    | some call => some (.ok (some call.recipe), files)

end Clients

/-! ### recipeWithRetry against a client -/

/-- The client answers a call when it returns. -/
def clientHandler {σ : Type} (c : Client σ) :
    (e : Eff) → σ × Option Request → Option (Resp e × (σ × Option Request))
  | .llmInvoke req, (s, _) => some ((), (s, some req))
  | .llmReturn, (s, some req) => (c req s).map fun r => (r.1, (r.2, none))
  | _, _ => none

/-- `recipeWithRetry` over a client, from a state of it; `none` when the client panics. -/
def recipeVia {σ : Type} (c : Client σ) (req : Generate) (man : Manifest) (s : σ) :
    Option (Except Err Recipe × σ) :=
  (runWith (clientHandler c) (recipeWithRetry req man) (s, none)).map fun r => (r.1, r.2.1)

/-- The attempts that are left, over a client. -/
def attemptsVia {σ : Type} (c : Client σ) (req : Generate) (man : Manifest) :
    ℕ → String → Err → σ → Option (Except Err Recipe × σ)
  | 0, _, lastErr, s => some (.error (lastErr.wrap "after one retry: " ""), s)
  | attempts + 1, priorError, _, s =>
    match c ⟨req.prompt, man, priorError⟩ s with
    | none => none
    | some (outcome, s') =>
      match attemptResult man outcome with
      | .ok recipe => some (.ok recipe, s')
      | .error err =>
        match err.invalid with
        | none => some (.error err, s')
        | some detail => attemptsVia c req man attempts detail err s'

theorem runWith_recipeAttempts {σ : Type} (c : Client σ) (req : Generate) (man : Manifest)
    (attempts : ℕ) (priorError : String) (lastErr : Err) (s : σ) :
    (runWith (clientHandler c) (recipeAttempts req man attempts priorError lastErr) (s, none)).map
        (fun r => (r.1, r.2.1)) = attemptsVia c req man attempts priorError lastErr s := by
  induction attempts generalizing priorError lastErr s with
  | zero => rfl
  | succ n ih =>
    rw [recipeAttempts_succ, runWith_call rfl, attemptsVia]
    cases hcall : c ⟨req.prompt, man, priorError⟩ s with
    | none =>
      rw [runWith_call_none]
      · rfl
      · simp only [clientHandler, hcall, Option.map_none]
    | some p =>
      obtain ⟨outcome, s'⟩ := p
      have hreturn : clientHandler c .llmReturn (s, some ⟨req.prompt, man, priorError⟩) =
          some (outcome, (s', none)) := by
        simp only [clientHandler, hcall, Option.map_some]
      rw [runWith_call hreturn]
      simp only
      cases attemptResult man outcome with
      | ok recipe => rfl
      | error err =>
        cases hinv : err.invalid with
        | none => simp [hinv]
        | some detail =>
          simp only [hinv]
          exact ih detail err s'

theorem recipeVia_eq {σ : Type} (c : Client σ) (req : Generate) (man : Manifest) (s : σ) :
    recipeVia c req man s = attemptsVia c req man 2 "" (Err.new "%!w(<nil>)") s :=
  runWith_recipeAttempts c req man 2 "" _ s

/-! ### Hits and misses -/

section Files

variable {hash : String → String} {dir : String} {explain : Json → String} {σ : Type}

/-- Requests of one generation are recorded to distinct files. -/
theorem recordingPath_inj (hhash : Function.Injective hash) {prompt : String} {man : Manifest}
    {priorError priorError' : String}
    (h : recordingPath hash dir ⟨prompt, man, priorError⟩ =
      recordingPath hash dir ⟨prompt, man, priorError'⟩) : priorError = priorError' := by
  have hkey : requestKey hash ⟨prompt, man, priorError⟩ =
      requestKey hash ⟨prompt, man, priorError'⟩ := by
    simpa [recordingPath, String.ext_iff] using h
  have htext := hhash hkey
  simpa [String.ext_iff] using htext

/-- A recorded recipe is served as it is. -/
theorem replay_hit {req : Request} {files : Directory} {prompt priorError : String} {r : Recipe}
    (hr : r.Representable)
    (h : files (recordingPath hash dir req) =
      some (encodeRecordedCall ⟨prompt, priorError, r⟩)) :
    replayClient hash dir explain req files = some (.ok (some r), files) := by
  have hdecode : decodeRecordedCall (encodeRecordedCall ⟨prompt, priorError, r⟩) default =
      some ⟨prompt, priorError, r⟩ := decode_encodeRecordedCall hr
  simp only [replayClient, h, hdecode]

/-- A request without a recording fails, and is not retried. -/
theorem replay_miss (explain : Json → String) {req : Request} {files : Directory}
    (h : files (recordingPath hash dir req) = none) :
    ∃ text, replayClient hash dir explain req files = some (.error (Err.new text), files) := by
  simp only [replayClient, h]
  exact ⟨_, rfl⟩

/-- What a call through the recorder did. -/
theorem recording_cases {inner : Client σ} {req : Request} {s s' : σ} {files files' : Directory}
    {outcome : Outcome}
    (h : recordingClient hash dir inner req (s, files) = some (outcome, (s', files'))) :
    inner req s = some (outcome, s') ∧
      ((∃ err, outcome = .error err ∧ files' = files) ∨
        ∃ r, outcome = .ok (some r) ∧ files' = Function.update files (recordingPath hash dir req)
          (some (encodeRecordedCall ⟨req.prompt, req.priorError, r⟩))) := by
  simp only [recordingClient] at h
  split at h
  · cases h
  · rename_i err s₁ hinner
    cases h
    exact ⟨hinner, .inl ⟨err, rfl, rfl⟩⟩
  · cases h
  · rename_i r s₁ hinner
    cases h
    exact ⟨hinner, .inr ⟨r, rfl, rfl⟩⟩

end Files

/-! ### Replay -/

/-- The first answer of the inner client was rejected inside it, with a detail to feed back, and
its second was accepted: only the second leaves a recording, under a key that no replay asks
for. -/
def RejectsFirst {σ : Type} (inner : Client σ) (req : Generate) (man : Manifest) (s : σ) : Prop :=
  ∃ err detail s₁ r s₂, inner ⟨req.prompt, man, ""⟩ s = some (.error err, s₁) ∧
    err.invalid = some detail ∧ detail ≠ "" ∧
    inner ⟨req.prompt, man, detail⟩ s₁ = some (.ok (some r), s₂) ∧
    validateRecipe (some r) man = none

section Replay

variable {hash : String → String} {dir : String} {explain : Json → String} {σ : Type}
variable {inner : InnerClient σ} {req : Generate} {man : Manifest}

/-- The recordings that a successful `recipeWithRetry` left: of an accepted recipe; of a recipe
that validation rejected, and then an accepted one; or of an accepted recipe after an answer
that the client itself rejected. -/
theorem recorded_cases {s s' : σ} {files : Directory} {R : Recipe}
    (h : recipeVia (recordingClient hash dir inner.call) req man (s, emptyDirectory) =
      some (.ok R, (s', files))) :
    R.Representable ∧ validateRecipe (some R) man = none ∧
      (files = Function.update emptyDirectory (recordingPath hash dir ⟨req.prompt, man, ""⟩)
          (some (encodeRecordedCall ⟨req.prompt, "", R⟩)) ∨
        (∃ r detail, r.Representable ∧ detail ≠ "" ∧
          validateRecipe (some r) man = some (invalidOutputError detail) ∧
          files = Function.update (Function.update emptyDirectory
              (recordingPath hash dir ⟨req.prompt, man, ""⟩)
              (some (encodeRecordedCall ⟨req.prompt, "", r⟩)))
            (recordingPath hash dir ⟨req.prompt, man, detail⟩)
            (some (encodeRecordedCall ⟨req.prompt, detail, R⟩))) ∨
        ∃ err detail s₁, inner.call ⟨req.prompt, man, ""⟩ s = some (.error err, s₁) ∧
          err.invalid = some detail ∧
          inner.call ⟨req.prompt, man, detail⟩ s₁ = some (.ok (some R), s') ∧
          files = Function.update emptyDirectory (recordingPath hash dir ⟨req.prompt, man, detail⟩)
            (some (encodeRecordedCall ⟨req.prompt, detail, R⟩))) := by
  rw [recipeVia_eq, attemptsVia] at h
  split at h
  · cases h
  rename_i outcome st hfirst
  obtain ⟨s₁, files₁⟩ := st
  obtain ⟨hinner, houtcome⟩ := recording_cases hfirst
  split at h
  · -- the first answer is accepted
    rename_i recipe hres
    cases h
    obtain ⟨rfl, hvalid⟩ := attemptResult_ok hres
    refine ⟨inner.representable _ _ _ _ hinner, (validateRecipe_eq_none_iff _ _).mpr hvalid,
      .inl ?_⟩
    rcases houtcome with ⟨err, herr, _⟩ | ⟨r, hr, rfl⟩
    · cases herr
    · cases hr
      rfl
  · rename_i err hres
    split at h
    · cases h
    rename_i detail hdetail
    rw [attemptsVia] at h
    split at h
    · cases h
    rename_i outcome₂ st₂ hsecond
    obtain ⟨s₂, files₂⟩ := st₂
    obtain ⟨hinner₂, houtcome₂⟩ := recording_cases hsecond
    split at h
    · -- the second answer is accepted
      rename_i recipe hres₂
      cases h
      obtain ⟨rfl, hvalid⟩ := attemptResult_ok hres₂
      refine ⟨inner.representable _ _ _ _ hinner₂, (validateRecipe_eq_none_iff _ _).mpr hvalid, ?_⟩
      rcases houtcome₂ with ⟨err₂, herr₂, _⟩ | ⟨r₂, hr₂, hfiles₂⟩
      · cases herr₂
      cases hr₂
      rcases houtcome with ⟨err₁, rfl, rfl⟩ | ⟨r, rfl, rfl⟩
      · cases hres
        exact .inr (.inr ⟨err, detail, s₁, hinner, hdetail, hinner₂, hfiles₂⟩)
      · -- the first answer was recorded, and failed validation
        have hinvalid : validateRecipe (some r) man = some err := by
          simp only [attemptResult] at hres
          split at hres
          · rename_i e he
            cases hres
            exact he
          · cases hres
        obtain ⟨detail', hne, rfl⟩ := validateRecipe_invalid hinvalid
        cases hdetail
        exact .inr (.inl ⟨r, detail, inner.representable _ _ _ _ hinner, hne, hinvalid, hfiles₂⟩)
    · split at h
      · cases h
      · cases h

/-- What a replay returns when its first request finds an accepted recipe. -/
theorem replay_first {files : Directory} (prompt priorError : String) {R : Recipe}
    (hR : R.Representable) (hvalid : validateRecipe (some R) man = none)
    (h : files (recordingPath hash dir ⟨req.prompt, man, ""⟩) =
      some (encodeRecordedCall ⟨prompt, priorError, R⟩)) :
    recipeVia (replayClient hash dir explain) req man files = some (.ok R, files) := by
  have hres : attemptResult man (.ok (some R)) = .ok R := by
    simp only [attemptResult, hvalid, Option.getD_some]
  rw [recipeVia_eq, attemptsVia, replay_hit hR h]
  simp only [hres]

/-- **Replay reproduces a recorded generation** exactly when it did not come from an answer that
the inner client rejected itself. -/
theorem replay_iff (hash : String → String) (hhash : Function.Injective hash) (dir : String)
    (explain : Json → String) {σ : Type} (inner : InnerClient σ) (req : Generate) (man : Manifest)
    (s : σ) :
    (∀ R s' files, recipeVia (recordingClient hash dir inner.call) req man (s, emptyDirectory) =
        some (.ok R, (s', files)) →
      ∃ files', recipeVia (replayClient hash dir explain) req man files = some (.ok R, files')) ↔
    ¬RejectsFirst inner.call req man s := by
  constructor
  · rintro hreplay ⟨err, detail, s₁, R, s₂, hfirst, hdetail, hne, hsecond, hvalid⟩
    -- what is recorded is only the answer to the second request
    have hrecord : recipeVia (recordingClient hash dir inner.call) req man (s, emptyDirectory) =
        some (.ok R, (s₂, Function.update emptyDirectory
          (recordingPath hash dir ⟨req.prompt, man, detail⟩)
          (some (encodeRecordedCall ⟨req.prompt, detail, R⟩)))) := by
      rw [recipeVia_eq, attemptsVia]
      simp only [recordingClient, hfirst, attemptResult, hdetail]
      rw [attemptsVia]
      simp only [recordingClient, hsecond, attemptResult, hvalid, Option.getD_some]
    obtain ⟨files', hserved⟩ := hreplay R s₂ _ hrecord
    have hmiss : Function.update emptyDirectory (recordingPath hash dir ⟨req.prompt, man, detail⟩)
        (some (encodeRecordedCall ⟨req.prompt, detail, R⟩))
        (recordingPath hash dir ⟨req.prompt, man, ""⟩) = none := by
      rw [Function.update_of_ne]
      · rfl
      · intro heq
        exact hne (recordingPath_inj hhash heq).symm
    obtain ⟨text, hcall⟩ := replay_miss explain hmiss
    rw [recipeVia_eq, attemptsVia, hcall] at hserved
    cases hserved
  · intro hnot R s' files hrecord
    obtain ⟨hR, hvalid, hcases⟩ := recorded_cases hrecord
    rcases hcases with hfiles | ⟨r, detail, hr, hne, hinvalid, hfiles⟩ |
      ⟨err, detail, s₁, hfirst, hdetail, hsecond, hfiles⟩
    · refine ⟨files, replay_first req.prompt "" hR hvalid ?_⟩
      rw [hfiles, Function.update_self]
    · -- the replay fails validation in the same way, and asks for the second recording
      have hpath : recordingPath hash dir ⟨req.prompt, man, ""⟩ ≠
          recordingPath hash dir ⟨req.prompt, man, detail⟩ := by
        intro heq
        exact hne (recordingPath_inj hhash heq).symm
      have hone : files (recordingPath hash dir ⟨req.prompt, man, ""⟩) =
          some (encodeRecordedCall ⟨req.prompt, "", r⟩) := by
        rw [hfiles, Function.update_of_ne hpath, Function.update_self]
      have htwo : files (recordingPath hash dir ⟨req.prompt, man, detail⟩) =
          some (encodeRecordedCall ⟨req.prompt, detail, R⟩) := by
        rw [hfiles, Function.update_self]
      refine ⟨files, ?_⟩
      rw [recipeVia_eq, attemptsVia, replay_hit hr hone]
      simp only [attemptResult, hinvalid, invalidOutputError_invalid]
      rw [attemptsVia, replay_hit hR htwo]
      simp only [attemptResult, hvalid, Option.getD_some]
    · by_cases hne : detail = ""
      · subst hne
        refine ⟨files, replay_first req.prompt "" hR hvalid ?_⟩
        rw [hfiles, Function.update_self]
      · exact absurd ⟨err, detail, s₁, R, s', hfirst, hdetail, hne, hsecond, hvalid⟩ hnot

end Replay

/-- An answer whose recipe, if any, is representable. -/
def Answer : Type := {a : Outcome // ∀ r, a = .ok (some r) → r.Representable}

def Answer.recipe (r : Recipe) (h : r.Representable) : Answer :=
  ⟨.ok (some r), by
    rintro _ ⟨⟩
    exact h⟩

def Answer.error (err : Err) : Answer := ⟨.error err, nofun⟩

/-- A client that gives its answers in turn, and then fails. -/
def scriptedClient : InnerClient (List Answer) where
  call _ answers :=
    match answers with
    | [] => some (.error (Err.new "no more answers"), [])
    | answer :: rest => some (answer.val, rest)
  representable := by
    intro req answers r answers' h
    cases answers with
    | nil => cases h
    | cons answer rest =>
      injection h with h
      exact answer.property r (Prod.mk.inj h).1

/-- The model answers with a category of its own, and then with the meadow. -/
def correctedAnswers : List Answer :=
  [.recipe ⟨.make [⟨"cat", 1, 0, .nil⟩]⟩ (by decide +kernel),
    .recipe meadowRecipe (by decide +kernel)]

theorem replay_iff_corrected :
    ∃ files files', recipeVia (recordingClient id "rec" scriptedClient.call) meadowRequest
        meadowManifest (correctedAnswers, emptyDirectory) = some (.ok meadowRecipe, ([], files)) ∧
      recipeVia (replayClient id "rec" fun _ => "") meadowRequest meadowManifest files =
        some (.ok meadowRecipe, files') := by
  have hnot : ¬RejectsFirst scriptedClient.call meadowRequest meadowManifest correctedAnswers := by
    rintro ⟨err, detail, s₁, R, s₂, hfirst, _⟩
    cases hfirst
  have hrecord : (recipeVia (recordingClient id "rec" scriptedClient.call) meadowRequest
      meadowManifest (correctedAnswers, emptyDirectory)).map
        (fun r => (r.1.toOption, r.2.1.length)) =
        some (some meadowRecipe, 0) := by decide +kernel
  obtain ⟨⟨result, rest, files⟩, hrun, hresult⟩ := Option.map_eq_some_iff.mp hrecord
  obtain ⟨hok, hrest⟩ := Prod.mk.inj hresult
  cases result with
  | error err => cases hok
  | ok R =>
    cases hok
    obtain rfl := List.eq_nil_of_length_eq_zero hrest
    obtain ⟨files', hserved⟩ := (replay_iff id Function.injective_id "rec" (fun _ => "")
      scriptedClient meadowRequest meadowManifest correctedAnswers).mpr hnot _ _ _ hrun
    exact ⟨files, files', hrun, hserved⟩

/-- What the client says about a model output that is no recipe. -/
def rejection : String := "model output is not valid recipe JSON: unexpected end of JSON input"

/-- The model answers with something that is no recipe, and then with the meadow. -/
def rejectedAnswers : List Answer :=
  [.error (invalidOutputError rejection), .recipe meadowRecipe (by decide +kernel)]

/-- What such a generation leaves: the retry, and nothing for the first request. -/
def rejectedRecording : Directory :=
  Function.update emptyDirectory
    (recordingPath id "rec" ⟨meadowRequest.prompt, meadowManifest, rejection⟩)
    (some (encodeRecordedCall ⟨meadowRequest.prompt, rejection, meadowRecipe⟩))

/-- **A recorded generation that is not replayed.** -/
theorem rejected_first_not_replayed :
    recipeVia (recordingClient id "rec" scriptedClient.call) meadowRequest meadowManifest
        (rejectedAnswers, emptyDirectory) = some (.ok meadowRecipe, ([], rejectedRecording)) ∧
      ∃ text, recipeVia (replayClient id "rec" fun _ => "") meadowRequest meadowManifest
        rejectedRecording = some (.error (Err.new text), rejectedRecording) := by
  constructor
  · have hsecond : attemptResult meadowManifest (.ok (some meadowRecipe)) = .ok meadowRecipe := by
      decide +kernel
    rw [recipeVia_eq, attemptsVia]
    show attemptsVia _ _ _ 1 rejection _ _ = _
    rw [attemptsVia]
    simp only [recordingClient, scriptedClient, Answer.recipe, hsecond]
    rfl
  · have hmiss : rejectedRecording
        (recordingPath id "rec" ⟨meadowRequest.prompt, meadowManifest, ""⟩) = none := by
      rw [rejectedRecording, Function.update_of_ne]
      · rfl
      · intro heq
        exact absurd (recordingPath_inj Function.injective_id heq) (by decide)
    obtain ⟨text, hcall⟩ := replay_miss (fun _ => "") hmiss
    refine ⟨text, ?_⟩
    rw [recipeVia_eq, attemptsVia, hcall]
    rfl

end AetherForge
