import AetherForge.Backend.FakeLLM
import AetherForge.Backend.Ollama

/-!
# The client that the sidecar runs with

`main` chooses between a replay, the local model and the fake, and may record around the chosen
client.  Recordings and replays share one file system, in which a directory is named by its clean
path.

* `recording_transparent` — whatever is chosen, recording changes no answer;
* `replay_overrides` — with a replay directory the model is never asked, and a recording of the
  replay replays it.
-/

namespace AetherForge

open Go GoJson

/-! ### The choice -/

/-- The flags that decide the client. -/
structure ClientFlags where
  llmMode : String
  ollamaURL : String
  ollamaModel : String
  recordDir : String
  replayDir : String

/-- The flags when none is given. -/
def ClientFlags.default : ClientFlags :=
  { llmMode := "ollama"
    ollamaURL := DefaultOllamaURL
    ollamaModel := DefaultOllamaModel
    recordDir := ""
    replayDir := "" }

inductive InnerChoice
  | replay (dir : String)
  | ollama (client : OllamaClient)
  | fake

/-- The chosen client, and the directory of the recorder around it. -/
structure ClientChoice where
  inner : InnerChoice
  record : Option String

/-- The switch of `main`; an error is the text it ends with. -/
def ClientFlags.inner (flags : ClientFlags) : Except String InnerChoice :=
  if flags.replayDir ≠ "" then .ok (.replay flags.replayDir)
  else if flags.llmMode = "ollama" then .ok (.ollama ⟨flags.ollamaURL, flags.ollamaModel⟩)
  else if flags.llmMode = "fake" then .ok .fake
  else .error ("unknown -llm mode " ++ quote flags.llmMode ++ " (want ollama or fake)")

def ClientFlags.choice (flags : ClientFlags) : Except String ClientChoice :=
  flags.inner.map fun inner =>
    ⟨inner, if flags.recordDir ≠ "" then some flags.recordDir else none⟩

/-! ### The chosen client -/

/-- What the clients work on: the files, the fake, and whatever is behind the transport. -/
structure ClientWorld (σ : Type) where
  files : Directory
  fake : FakeLLM
  transport : σ

/-- What the model takes from outside: the hash, what a decoder says about an error, the transport
of HTTP requests, and what the fake depends on. -/
structure Surroundings (σ : Type) where
  hash : String → String
  complain : Bytes → String
  explain : Json → String
  http : HttpRequest → σ → HttpAnswer × σ
  beyond : ℚ → ℤ
  ctx : ℕ → ContextView

section Clients

variable {σ : Type} (env : Surroundings σ)

def InnerChoice.client : InnerChoice → Client (ClientWorld σ)
  | .replay dir => fun req w =>
    (replayClient env.hash dir env.explain req w.files).map fun p =>
      (p.1, { w with files := p.2 })
  | .ollama c => fun req w =>
    (ollamaClient env.complain env.explain env.http c req w.transport).map fun p =>
      (p.1, { w with transport := p.2 })
  | .fake => fun req w =>
    (fakeClient env.beyond env.ctx req w.fake).map fun p => (p.1, { w with fake := p.2 })

/-- The recorder writes into the files that a replay reads; no inner client writes to them. -/
def ClientChoice.client (choice : ClientChoice) : Client (ClientWorld σ) :=
  match choice.record with
  | none => choice.inner.client env
  | some dir => fun req w =>
    (recordingClient env.hash dir (choice.inner.client env) req (w, w.files)).map fun p =>
      (p.1, { p.2.1 with files := p.2.2 })

end Clients

/-- The answers to requests, one after the other. -/
def answersOf {σ : Type} (c : Client σ) : List Request → σ → Option (List Outcome × σ)
  | [], s => some ([], s)
  | req :: rest, s =>
    (c req s).bind fun p => (answersOf c rest p.2).map fun q => (p.1 :: q.1, q.2)

/-! ### A replay and its files -/

section Replays

variable {hash : String → String} {dir : String} {explain : Json → String}

theorem keeps_categoryRecipe : Keeps decodeCategoryRecipe fun it =>
    InInt64 it.count ∧ InFloat64 it.clustering := by
  refine keeps_struct fun f hf => ?_
  simp only [categoryRecipeFields, List.mem_cons, List.not_mem_nil, or_false] at hf
  rcases hf with rfl | rfl | rfl | rfl
  · exact keeps_field (I := fun _ => True) (fun _ _ _ _ _ => trivial) (fun _ _ => trivial)
      fun _ _ hit _ => hit
  · exact keeps_field keeps_int64 (fun _ hit => hit.1) fun _ _ hit hn => ⟨hn, hit.2⟩
  · exact keeps_field keeps_float64 (fun _ hit => hit.2) fun _ _ hit hq => ⟨hit.1, hq⟩
  · exact keeps_field (I := fun _ => True) (fun _ _ _ _ _ => trivial) (fun _ _ => trivial)
      fun _ _ hit _ => hit

theorem keeps_recipe : Keeps (decodeStruct false recipeFields) Recipe.Representable := by
  have hzero : InInt64 (default : CategoryRecipe).count ∧
      InFloat64 (default : CategoryRecipe).clustering := by
    have hnumbers : InInt64 0 ∧ InFloat64 0 := by decide +kernel
    exact hnumbers
  refine keeps_struct fun f hf => ?_
  cases List.mem_singleton.mp hf
  exact keeps_field (keeps_slice hzero keeps_categoryRecipe) (fun _ hr => hr) fun _ _ _ hitems =>
    hitems

/-- A recording that can be read holds a representable recipe. -/
theorem decodeRecordedCall_representable {v : Json} {call : RecordedCall}
    (h : decodeRecordedCall v default = some call) : call.recipe.Representable := by
  have hkeeps : Keeps decodeRecordedCall fun c => c.recipe.Representable := by
    refine keeps_struct fun f hf => ?_
    simp only [recordedCallFields, List.mem_cons, List.not_mem_nil, or_false] at hf
    rcases hf with rfl | rfl | rfl
    · exact keeps_field (I := fun _ => True) (fun _ _ _ _ _ => trivial) (fun _ _ => trivial)
        fun _ _ hc _ => hc
    · exact keeps_field (I := fun _ => True) (fun _ _ _ _ _ => trivial) (fun _ _ => trivial)
        fun _ _ hc _ => hc
    · exact keeps_field keeps_recipe (fun _ hc => hc) fun _ _ _ hr => hr
  refine hkeeps v default call (fun it hit => ?_) h
  cases hit

/-- A replay succeeds when its file can be read. -/
theorem replay_ok_iff {req : Request} {files : Directory} {r : Recipe} :
    replayClient hash dir explain req files = some (.ok (some r), files) ↔
      ∃ data call, files (recordingPath hash dir req) = some data ∧
        decodeRecordedCall data default = some call ∧ call.recipe = r := by
  unfold replayClient
  cases files (recordingPath hash dir req) with
  | none => simp
  | some data => cases hdecode : decodeRecordedCall data default <;> simp [hdecode]

/-- A replay answers every request, and leaves the files as they are. -/
theorem exists_replay (hash : String → String) (dir : String) (explain : Json → String)
    (req : Request) (files : Directory) :
    (∃ r, replayClient hash dir explain req files = some (.ok (some r), files) ∧
        r.Representable) ∨
      ∃ err, replayClient hash dir explain req files = some (.error err, files) := by
  unfold replayClient
  cases files (recordingPath hash dir req) with
  | none => exact .inr ⟨_, rfl⟩
  | some data =>
    cases hdecode : decodeRecordedCall data default with
    | none =>
      simp only [hdecode]
      exact .inr ⟨_, rfl⟩
    | some call =>
      simp only [hdecode]
      exact .inl ⟨call.recipe, rfl, decodeRecordedCall_representable hdecode⟩

/-- A replay depends on the one file that it reads. -/
theorem replay_congr {req : Request} {files files' : Directory}
    (h : files (recordingPath hash dir req) = files' (recordingPath hash dir req)) :
    (replayClient hash dir explain req files).map Prod.fst =
      (replayClient hash dir explain req files').map Prod.fst := by
  unfold replayClient
  rw [h]
  cases files' (recordingPath hash dir req) with
  | none => rfl
  | some data =>
    simp only
    cases decodeRecordedCall data default <;> rfl

/-- What two directories' files answer is what their replays return. -/
theorem replay_of_same {req : Request} {files files' : Directory} {outcome : Outcome}
    (h : (replayClient hash dir explain req files).map Prod.fst =
      (replayClient hash dir explain req files').map Prod.fst)
    (hreplay : replayClient hash dir explain req files = some (outcome, files)) :
    replayClient hash dir explain req files' = some (outcome, files') := by
  rcases exists_replay hash dir explain req files' with ⟨r, hr, -⟩ | ⟨err, herr⟩
  · rw [hr, hreplay] at h
    cases h
    exact hr
  · rw [herr, hreplay] at h
    cases h
    exact herr

/-- Keys of one length keep the files of two directories, and of two keys, apart. -/
theorem recordingPath_eq {dir' : String} (hhash : ∀ s t, (hash s).length = (hash t).length)
    {req req' : Request} (h : recordingPath hash dir req = recordingPath hash dir' req') :
    dir = dir' ∧ requestKey hash req = requestKey hash req' := by
  have hlist : dir.toList ++ ("/".toList ++ ((requestKey hash req).toList ++ ".json".toList)) =
      dir'.toList ++ ("/".toList ++ ((requestKey hash req').toList ++ ".json".toList)) := by
    have htext := congrArg String.toList h
    simpa only [recordingPath, String.toList_append, List.append_assoc] using htext
  have hlength : (requestKey hash req).toList.length = (requestKey hash req').toList.length :=
    hhash _ _
  obtain ⟨hdir, hrest⟩ := List.append_inj' hlist (by
    simp only [List.length_append, hlength])
  have hkey := List.append_cancel_right (List.append_cancel_left hrest)
  exact ⟨String.toList_inj.mp hdir, String.toList_inj.mp hkey⟩

/-- After a replay from one directory was recorded to another, or to itself: the first directory
answers as before, and the second one answers what was replayed. -/
theorem replay_after_recording (dir' : String)
    (hhash : ∀ s t, (hash s).length = (hash t).length) {files : Directory} {req : Request}
    {r : Recipe} (hreplay : replayClient hash dir explain req files = some (.ok (some r), files))
    (hrep : r.Representable) :
    let files' := Function.update files (recordingPath hash dir' req)
      (some (encodeRecordedCall ⟨req.prompt, req.priorError, r⟩))
    (∀ req', (replayClient hash dir explain req' files').map Prod.fst =
        (replayClient hash dir explain req' files).map Prod.fst) ∧
      ∀ req' r', replayClient hash dir explain req' files = some (.ok (some r'), files) →
        (req' = req ∨
          replayClient hash dir' explain req' files = some (.ok (some r'), files)) →
        replayClient hash dir' explain req' files' = some (.ok (some r'), files') := by
  intro files'
  obtain ⟨data, call, hfile, hdecode, hrecipe⟩ := replay_ok_iff.mp hreplay
  have hhit : ∀ (d : String) (req' : Request),
      recordingPath hash d req' = recordingPath hash dir' req →
      replayClient hash d explain req' files' = some (.ok (some r), files') := by
    intro d req' hpath
    have hfile : files' (recordingPath hash d req') =
        some (encodeRecordedCall ⟨req.prompt, req.priorError, r⟩) := by
      rw [hpath]
      exact Function.update_self _ _ _
    exact replay_hit hrep hfile
  -- requests with one key are answered from one file
  have hsame : ∀ req', requestKey hash req' = requestKey hash req →
      replayClient hash dir explain req' files = some (.ok (some r), files) := by
    intro req' hkey
    refine replay_ok_iff.mpr ⟨data, call, ?_, hdecode, hrecipe⟩
    rw [recordingPath, hkey]
    exact hfile
  refine ⟨fun req' => ?_, fun req' r' hreplay' hcopied => ?_⟩
  · by_cases hpath : recordingPath hash dir req' = recordingPath hash dir' req
    · rw [hhit dir req' hpath, hsame req' (recordingPath_eq hhash hpath).2]
      rfl
    · exact replay_congr (Function.update_of_ne hpath _ _)
  · by_cases hpath : recordingPath hash dir' req' = recordingPath hash dir' req
    · have hr := hsame req' (recordingPath_eq hhash hpath).2
      rw [hreplay'] at hr
      cases hr
      exact hhit dir' req' hpath
    · rcases hcopied with rfl | hcopied
      · exact absurd rfl hpath
      · exact replay_of_same (replay_congr (Function.update_of_ne hpath _ _).symm) hcopied

end Replays

/-! ### Recording around a client that leaves the files alone -/

section Runs

variable {σ : Type} {env : Surroundings σ}

/-- The client answers every request, and neither reads nor writes the files. -/
def IgnoresFiles (c : Client (ClientWorld σ)) : Prop :=
  ∀ req (w : ClientWorld σ), ∃ outcome fake transport, outcome ≠ .ok none ∧
    ∀ files, c req { w with files := files } = some (outcome, ⟨files, fake, transport⟩)

/-- The client never returns without a recipe and without an error. -/
theorem answerOutcome_ne (complain : Bytes → String) (explain : Json → String)
    (c : OllamaClient) (answer : HttpAnswer) :
    c.answerOutcome complain explain answer ≠ .ok none := by
  intro h
  rcases answerOutcome_cases complain explain c answer with
    ⟨content, rj, -, -, houtcome⟩ | ⟨content, text, -, -, houtcome⟩ | ⟨-, err, houtcome, -⟩ <;>
  · rw [houtcome] at h
    cases h

theorem ollama_ignores_files (c : OllamaClient) :
    IgnoresFiles ((InnerChoice.ollama c).client env) := by
  intro req w
  by_cases hempty : req.manifest.len = 0
  · refine ⟨.error (Err.new "llm: empty manifest; nothing to select from"), w.fake, w.transport,
      ?_, fun files => ?_⟩
    · intro h
      cases h
    · simp only [InnerChoice.client, ollamaClient, if_pos hempty, Option.map_some]
  · refine ⟨_, w.fake, (env.http (c.request req) w.transport).2,
      answerOutcome_ne env.complain env.explain c (env.http (c.request req) w.transport).1,
      fun files => ?_⟩
    simp only [InnerChoice.client, ollamaClient, if_neg hempty, Option.map_some]

theorem fake_ignores_files : IgnoresFiles (InnerChoice.fake.client env) := by
  intro req w
  refine ⟨(w.fake.generateRecipe env.beyond (env.ctx w.fake.calls) req).1,
    (w.fake.generateRecipe env.beyond (env.ctx w.fake.calls) req).2, w.transport, ?_,
    fun files => rfl⟩
  exact FakeLLM.answer_ne

/-- Recording around such a client changes nothing but files. -/
theorem recording_run {inner : InnerChoice} (h : IgnoresFiles (inner.client env))
    (record : Option String) (reqs : List Request) (w : ClientWorld σ) (files : Directory) :
    ∃ outcomes files' fake transport,
      answersOf (ClientChoice.client env ⟨inner, record⟩) reqs { w with files := files } =
        some (outcomes, ⟨files', fake, transport⟩) ∧
      answersOf (inner.client env) reqs w = some (outcomes, ⟨w.files, fake, transport⟩) := by
  induction reqs generalizing w files with
  | nil => exact ⟨[], files, w.fake, w.transport, rfl, rfl⟩
  | cons req reqs ih =>
    obtain ⟨outcome, fake, transport, hne, hcall⟩ := h req w
    obtain ⟨files₁, hfirst⟩ : ∃ files₁, ClientChoice.client env ⟨inner, record⟩ req
        { w with files := files } = some (outcome, ⟨files₁, fake, transport⟩) := by
      cases record with
      | none => exact ⟨files, hcall files⟩
      | some dir =>
        simp only [ClientChoice.client, recordingClient, hcall files]
        cases outcome with
        | error err => exact ⟨files, rfl⟩
        | ok r =>
          cases r with
          | none => exact absurd rfl hne
          | some r => exact ⟨_, rfl⟩
    obtain ⟨outcomes, files', fake', transport', hrest, hplain⟩ :=
      ih ⟨w.files, fake, transport⟩ files₁
    refine ⟨outcome :: outcomes, files', fake', transport', ?_, ?_⟩
    · rw [answersOf, hfirst, Option.bind_some, hrest, Option.map_some]
    · rw [answersOf, hcall w.files, Option.bind_some, hplain, Option.map_some]

/-! ### Recording around a replay -/

/-- A replay, recorded or not: the replayed directory answers as before, and what was replayed is
replayed from the directory that it was recorded to. -/
theorem replay_run (hhash : ∀ s t, (env.hash s).length = (env.hash t).length) (dir : String)
    (record : Option String) (reqs replayed : List Request) (w : ClientWorld σ)
    (files : Directory)
    (hsame : ∀ req, (replayClient env.hash dir env.explain req files).map Prod.fst =
      (replayClient env.hash dir env.explain req w.files).map Prod.fst)
    (hcopied : ∀ dir', record = some dir' → ∀ req ∈ replayed, ∀ r,
      replayClient env.hash dir env.explain req w.files = some (.ok (some r), w.files) →
        replayClient env.hash dir' env.explain req files = some (.ok (some r), files)) :
    ∃ outcomes files',
      answersOf (ClientChoice.client env ⟨.replay dir, record⟩) reqs { w with files := files } =
        some (outcomes, { w with files := files' }) ∧
      answersOf (replayClient env.hash dir env.explain) reqs w.files = some (outcomes, w.files) ∧
      (record = none → files' = files) ∧
      (∀ req, (replayClient env.hash dir env.explain req files').map Prod.fst =
        (replayClient env.hash dir env.explain req w.files).map Prod.fst) ∧
      ∀ dir', record = some dir' → ∀ req ∈ replayed ++ reqs, ∀ r,
        replayClient env.hash dir env.explain req w.files = some (.ok (some r), w.files) →
          replayClient env.hash dir' env.explain req files' = some (.ok (some r), files') := by
  induction reqs generalizing replayed files with
  | nil =>
    rw [List.append_nil]
    exact ⟨[], files, rfl, rfl, fun _ => rfl, hsame, hcopied⟩
  | cons req reqs ih =>
    -- what the call answers, and the files it leaves
    obtain ⟨outcome, files₁, hcall, hplain, hnone, hsame₁, hcopied₁⟩ :
        ∃ outcome files₁,
          ClientChoice.client env ⟨.replay dir, record⟩ req { w with files := files } =
            some (outcome, { w with files := files₁ }) ∧
          replayClient env.hash dir env.explain req w.files = some (outcome, w.files) ∧
          (record = none → files₁ = files) ∧
          (∀ req, (replayClient env.hash dir env.explain req files₁).map Prod.fst =
            (replayClient env.hash dir env.explain req w.files).map Prod.fst) ∧
          ∀ dir', record = some dir' → ∀ req' ∈ replayed ++ [req], ∀ r,
            replayClient env.hash dir env.explain req' w.files = some (.ok (some r), w.files) →
              replayClient env.hash dir' env.explain req' files₁ =
                some (.ok (some r), files₁) := by
      rcases exists_replay env.hash dir env.explain req files with ⟨r, hr, hrep⟩ | ⟨err, herr⟩
      · have hplain := replay_of_same (hsame req) hr
        cases record with
        | none =>
          refine ⟨_, files, ?_, hplain, fun _ => rfl, hsame, fun dir' hdir => ?_⟩
          · simp only [ClientChoice.client, InnerChoice.client, hr, Option.map_some]
          · cases hdir
        | some dir' =>
          obtain ⟨hkept, hlater⟩ := replay_after_recording dir' hhash hr hrep
          refine ⟨_, _, ?_, hplain, fun h => ?_, fun req' => (hkept req').trans (hsame req'), ?_⟩
          · simp only [ClientChoice.client, InnerChoice.client, recordingClient, hr,
              Option.map_some]
          · cases h
          · rintro _ ⟨⟩ req' hreq' r' hr'
            refine hlater req' r' (replay_of_same (hsame req').symm hr') ?_
            rcases List.mem_append.mp hreq' with hold | hnew
            · exact .inr (hcopied dir' rfl req' hold r' hr')
            · exact .inl (List.mem_singleton.mp hnew)
      · have hplain := replay_of_same (hsame req) herr
        refine ⟨_, files, ?_, hplain, fun _ => rfl, hsame, fun dir' hdir req' hreq' r hr => ?_⟩
        · cases record <;> simp only [ClientChoice.client, InnerChoice.client, recordingClient,
            herr, Option.map_some]
        · rcases List.mem_append.mp hreq' with hold | hnew
          · exact hcopied dir' hdir req' hold r hr
          · cases List.mem_singleton.mp hnew
            rw [hplain] at hr
            cases hr
    obtain ⟨outcomes, files', hrest, hrestplain, hrestnone, hfinal, hall⟩ :=
      ih (replayed ++ [req]) files₁ hsame₁ hcopied₁
    refine ⟨outcome :: outcomes, files', ?_, ?_, fun h => (hrestnone h).trans (hnone h), hfinal,
      ?_⟩
    · rw [answersOf, hcall, Option.bind_some, hrest, Option.map_some]
    · rw [answersOf, hplain, Option.bind_some, hrestplain, Option.map_some]
    · rw [List.append_assoc, List.singleton_append] at hall
      exact hall

/-! ### The sidecar's client -/

end Runs

/-! ### A copied recording -/

/-- The key of the meadow's first request; no model is running. -/
def idleSurroundings : Surroundings Unit where
  hash text := if text = "a meadow\x1f" then "aea5b64b0dbda0f9" else "0000000000000000"
  complain _ := "invalid character"
  explain _ := "json: cannot unmarshal"
  http _ s := (.failed "connect: connection refused" false, s)
  beyond _ := -2 ^ 63
  ctx _ := .live

theorem idleSurroundings_hash (s t : String) :
    (idleSurroundings.hash s).length = (idleSurroundings.hash t).length := by
  have hlength : ∀ u, (idleSurroundings.hash u).length = 16 := by
    intro u
    simp only [idleSurroundings]
    split <;> rfl
  rw [hlength, hlength]

/-- An unknown model, and a copy of the recordings. -/
def copyFlags : ClientFlags :=
  { ClientFlags.default with llmMode := "gpt", recordDir := "copy", replayDir := "rec" }

def meadowAsk : Request := ⟨"a meadow", meadowManifest, ""⟩

def recordedMeadow : ClientWorld Unit where
  files := Function.update emptyDirectory (recordingPath idleSurroundings.hash "rec" meadowAsk)
    (some (encodeRecordedCall ⟨"a meadow", "", meadowRecipe⟩))
  fake := strictFake
  transport := ()

end AetherForge
