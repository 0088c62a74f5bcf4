import AetherForge.Backend.StreamGrammar

/-!
# What a cancelled generation may still hand over

Cancellation reaches the pipeline through the answers to its context tests.  `Mute p` says that
what is left of a run hands nothing over while the context is done (and no LLM call returns a
deadline error).  At every point of a run on a ready store, what is left is mute, or the run has
passed its last test before a Send (`InSendWindow`), or it is about to report a deadline error,
which it does without regard to the context (`ReportingTimeout`): `run_settles`.
-/

namespace AetherForge

open Go Interaction Slicing

/-! ### Residual runs -/

/-- The next effect hands a message over. -/
def InSendWindow {α : Type} (p : Run α) : Prop := ∃ msg k, p = .call (.send msg) k

/-- A deadline error is about to be reported. -/
def ReportingTimeout (p : Run Unit) : Prop :=
  ∃ id err, err.deadlineExceeded = true ∧
    (p = reportRecipeError id err ∨ p = .call Eff.now fun _ => reportRecipeError id err)

/-- A deadline error, or a result. -/
def TimedOut : Outcome → Prop
  | .error err => err.deadlineExceeded = true
  | .ok _ => False

/-- The store is ready. -/
def StoreAnswers : (e : Eff) → Resp e → Prop
  | .storeReady, ready => ready = true
  | _, _ => True

/-- The store is ready, the context is done, and no LLM call returns a deadline error. -/
def CancelledAnswers : (e : Eff) → Resp e → Prop
  | .storeReady, ready => ready = true
  | .ctxErr, cancelled => cancelled = true
  | .ctxDone, done => done = true
  | .llmReturn, outcome => ¬TimedOut outcome
  | _, _ => True

/-- Under cancellation the run hands nothing over. -/
def Mute {α : Type} (p : Run α) : Prop :=
  Always CancelledAnswers (fun q => ¬InSendWindow q) p

/-- The residual of a run is mute, or is one of the two exceptions. -/
def Settles (p : Run Unit) : Prop := InSendWindow p ∨ ReportingTimeout p ∨ Mute p

/-- The residual of a stage that reports no error is mute, or in the window. -/
def Steady {α : Type} (p : Run α) : Prop :=
  Always StoreAnswers (fun q => InSendWindow q ∨ Mute q) p

/-! ### Rules -/

section Rules

variable {α β : Type}

theorem not_inSendWindow_ret (a : α) : ¬InSendWindow (.ret a : Run α) := by
  rintro ⟨_, _, h⟩
  cases h

theorem mute_ret (a : α) : Mute (.ret a : Run α) := always_ret (not_inSendWindow_ret a)

/-- The effect hands a message over. -/
def sends : Eff → Bool
  | .send _ => true
  | _ => false

theorem mute_call {e : Eff} {k : Resp e → Run α} (hns : sends e = false)
    (hk : ∀ r, CancelledAnswers e r → Mute (k r)) : Mute (.call e k) := by
  refine always_call ?_ hk
  rintro ⟨msg, _, h⟩
  cases h
  cases hns

theorem inSendWindow_bind_iff {p : Run α} {f : α → Run β} (hne : ∀ a, p ≠ .ret a) :
    InSendWindow (p >>= f) ↔ InSendWindow p := by
  cases p with
  | ret a => exact absurd rfl (hne a)
  | call e k =>
    constructor
    · rintro ⟨msg, _, h⟩
      cases h
      exact ⟨msg, _, rfl⟩
    · rintro ⟨msg, _, h⟩
      cases h
      exact ⟨msg, _, rfl⟩

theorem mute_bind {p : Run α} {f : α → Run β} (hp : Mute p) (hf : ∀ a, Mute (f a)) :
    Mute (p >>= f) := by
  refine always_bind (S := fun _ => True) ?_ fun a _ => hf a
  intro evs q hevs ht
  refine ⟨?_, fun _ _ => trivial⟩
  cases q with
  | ret a => exact (hf a).here
  | call e k =>
    rw [inSendWindow_bind_iff nofun]
    exact hp evs _ hevs ht

theorem mute_andThen {p p' : Run Bool} (hp : Mute p) (hp' : Mute p') : Mute (andThen p p') := by
  refine mute_bind hp fun ok => ?_
  cases ok with
  | true => exact hp'
  | false => exact mute_ret false

theorem steady_ret (a : α) : Steady (.ret a : Run α) := always_ret (.inr (mute_ret a))

theorem steady_call {e : Eff} {k : Resp e → Run α} (hm : Mute (.call e k))
    (hk : ∀ r, Steady (k r)) : Steady (.call e k) :=
  always_call (.inr hm) fun r _ => hk r

theorem steady_bind {p : Run α} {f : α → Run β} (hp : Steady p) (hf : ∀ a, Steady (f a))
    (hm : ∀ a, Mute (f a)) : Steady (p >>= f) := by
  refine always_bind (S := fun _ => True) ?_ fun a _ => hf a
  intro evs q hevs ht
  refine ⟨?_, fun _ _ => trivial⟩
  rcases hp evs q hevs ht with ⟨msg, k, rfl⟩ | hmute
  · exact .inl ⟨msg, _, rfl⟩
  · exact .inr (mute_bind hmute hm)

theorem steady_andThen {p p' : Run Bool} (hp : Steady p) (hp' : Steady p') (hm : Mute p') :
    Steady (andThen p p') := by
  refine steady_bind hp (fun ok => ?_) fun ok => ?_
  · cases ok with
    | true => exact hp'
    | false => exact steady_ret false
  · cases ok with
    | true => exact hm
    | false => exact mute_ret false

theorem settles_of_steady {p : Run Unit} (h : Steady p) : Always StoreAnswers Settles p :=
  fun evs q hevs ht => (h evs q hevs ht).imp_right .inr

end Rules

/-! ### Stages under cancellation -/

section Stages

variable (o : Orchestrator) (req : Generate)

theorem mute_send (msg : Message) : Mute (send msg) := by
  rw [send_eq]
  refine mute_call rfl ?_
  rintro done rfl
  exact mute_ret false

theorem mute_sendChunks (entries : List AssetEntry) (off : ℕ) :
    Mute (sendChunks o req entries off) := by
  induction off using slices.induct o.chunkSize o.chunkSize_pos entries with
  | case1 off h ih =>
    rw [sendChunks, if_pos h]
    exact mute_andThen (mute_send _) ih
  | case2 off h =>
    rw [sendChunks, if_neg h]
    exact mute_ret true

theorem mute_sendComplete (entries : List AssetEntry) (start llmElapsed : ℤ) :
    Mute (sendComplete req entries start llmElapsed) := by
  rw [sendComplete_eq]
  exact mute_call rfl fun _ _ => mute_send _

theorem mute_stream (recipe : Recipe) (seed : ℤ) (entries : List AssetEntry)
    (start llmElapsed : ℤ) : Mute (stream o req recipe seed entries start llmElapsed) :=
  mute_andThen (mute_send _)
    (mute_andThen (mute_sendChunks o req entries 0)
      (mute_sendComplete req entries start llmElapsed))

theorem mute_reportRecipeError {err : Err} (h : err.deadlineExceeded = false) :
    Mute (reportRecipeError req.generationId err) := by
  rw [reportRecipeError_eq]
  refine mute_call rfl ?_
  rintro cancelled rfl
  rw [h]
  exact mute_ret ()

theorem mute_placeAndStream (man : Manifest) (recipe : Recipe) (seed start llmElapsed : ℤ) :
    Mute (placeAndStream o req man recipe seed start llmElapsed) := by
  unfold placeAndStream
  cases o.place recipe seed req.bounds man with
  | error err =>
    refine mute_call rfl ?_
    rintro cancelled rfl
    exact mute_ret ()
  | ok entries => exact mute_bind (mute_stream o req _ _ _ _ _) fun _ => mute_ret ()

theorem mute_chooseSeed : Mute (chooseSeed req) := by
  unfold chooseSeed
  cases req.seed with
  | some seed => exact mute_ret seed
  | none => exact mute_call rfl fun _ _ => mute_ret _

/-- What follows an LLM stage that did not end in a deadline error. -/
theorem mute_afterRecipe (man : Manifest) (start llmElapsed : ℤ) {result : Except Err Recipe}
    (h : ∀ err, result = .error err → err.deadlineExceeded = false) :
    Mute (afterRecipe o req man start llmElapsed result) := by
  cases result with
  | error err => exact mute_reportRecipeError req (h err rfl)
  | ok recipe =>
    exact mute_bind (mute_chooseSeed req) fun seed => mute_placeAndStream o req man _ seed _ _

/-! ### Stages, whatever the context -/

theorem steady_send (msg : Message) : Steady (send msg) := by
  have hm := mute_send msg
  rw [send_eq] at hm ⊢
  refine steady_call hm fun done => ?_
  cases done with
  | true => exact steady_ret false
  | false => exact always_call (.inl ⟨msg, _, rfl⟩) fun ok _ => steady_ret ok

theorem steady_sendChunks (entries : List AssetEntry) (off : ℕ) :
    Steady (sendChunks o req entries off) := by
  induction off using slices.induct o.chunkSize o.chunkSize_pos entries with
  | case1 off h ih =>
    rw [sendChunks, if_pos h]
    exact steady_andThen (steady_send _) ih (mute_sendChunks o req entries _)
  | case2 off h =>
    rw [sendChunks, if_neg h]
    exact steady_ret true

theorem steady_sendComplete (entries : List AssetEntry) (start llmElapsed : ℤ) :
    Steady (sendComplete req entries start llmElapsed) := by
  have hm := mute_sendComplete req entries start llmElapsed
  rw [sendComplete_eq] at hm ⊢
  exact steady_call hm fun _ => steady_send _

theorem steady_stream (recipe : Recipe) (seed : ℤ) (entries : List AssetEntry)
    (start llmElapsed : ℤ) : Steady (stream o req recipe seed entries start llmElapsed) :=
  steady_andThen (steady_send _)
    (steady_andThen (steady_sendChunks o req entries 0)
      (steady_sendComplete req entries start llmElapsed)
      (mute_sendComplete req entries start llmElapsed))
    (mute_andThen (mute_sendChunks o req entries 0)
      (mute_sendComplete req entries start llmElapsed))

theorem steady_sendError (generationId code text : String) (recoverable : Bool) :
    Steady (sendError generationId code text recoverable) := by
  rw [sendError_eq]
  exact always_call (.inl ⟨_, _, rfl⟩) fun _ _ => steady_ret ()

theorem steady_placeAndStream (man : Manifest) (recipe : Recipe) (seed start llmElapsed : ℤ) :
    Steady (placeAndStream o req man recipe seed start llmElapsed) := by
  have hm := mute_placeAndStream o req man recipe seed start llmElapsed
  unfold placeAndStream at hm ⊢
  cases hplace : o.place recipe seed req.bounds man with
  | error err =>
    rw [hplace] at hm
    refine steady_call hm fun cancelled => ?_
    cases cancelled with
    | true => exact steady_ret ()
    | false => exact steady_sendError _ _ _ _
  | ok entries =>
    exact steady_bind (steady_stream o req _ _ _ _ _) (fun _ => steady_ret ()) fun _ => mute_ret ()

theorem steady_chooseSeed : Steady (chooseSeed req) := by
  have hm := mute_chooseSeed req
  unfold chooseSeed at hm ⊢
  cases hseed : req.seed with
  | some seed => exact steady_ret seed
  | none =>
    rw [hseed] at hm
    exact steady_call hm fun _ => steady_ret _

theorem settles_reportRecipeError (err : Err) :
    Always StoreAnswers Settles (reportRecipeError req.generationId err) := by
  have hhead : Settles (reportRecipeError req.generationId err) := by
    cases hd : err.deadlineExceeded with
    | true => exact .inr (.inl ⟨_, err, hd, .inl rfl⟩)
    | false => exact .inr (.inr (mute_reportRecipeError req hd))
  rw [reportRecipeError_eq] at hhead ⊢
  refine always_call hhead fun cancelled _ => settles_of_steady ?_
  split
  · exact steady_ret ()
  · exact steady_sendError _ _ _ _

/-- What follows the LLM stage, from the reading of the clock on. -/
def afterLLM (man : Manifest) (start llmStart : ℤ) (result : Except Err Recipe) : Run Unit :=
  .call Eff.now fun llmEnd => afterRecipe o req man start (llmEnd - llmStart) result

theorem mute_afterLLM (man : Manifest) (start llmStart : ℤ) {result : Except Err Recipe}
    (h : ∀ err, result = .error err → err.deadlineExceeded = false) :
    Mute (afterLLM o req man start llmStart result) :=
  mute_call rfl fun _ _ => mute_afterRecipe o req man start _ h

theorem settles_afterLLM (man : Manifest) (start llmStart : ℤ) (result : Except Err Recipe) :
    Always StoreAnswers Settles (afterLLM o req man start llmStart result) := by
  cases result with
  | error err =>
    refine always_call ?_ fun _ _ => settles_reportRecipeError req err
    cases hd : err.deadlineExceeded with
    | true => exact .inr (.inl ⟨_, err, hd, .inr rfl⟩)
    | false =>
      refine .inr (.inr (mute_afterLLM o req man start llmStart ?_))
      rintro _ ⟨⟩
      exact hd
  | ok recipe =>
    have hm : Mute (afterLLM o req man start llmStart (.ok recipe)) :=
      mute_afterLLM o req man start llmStart (by simp)
    refine always_call (.inr (.inr hm)) fun _ _ => ?_
    exact settles_of_steady (steady_bind (steady_chooseSeed req)
      (fun seed => steady_placeAndStream o req man _ seed _ _)
      fun seed => mute_placeAndStream o req man _ seed _ _)

/-- An attempt that did not time out does not fail with a deadline error. -/
theorem attemptResult_deadline {man : Manifest} {outcome : Outcome} (h : ¬TimedOut outcome)
    {err : Err} (herr : attemptResult man outcome = .error err) : err.deadlineExceeded = false := by
  cases outcome with
  | error e =>
    cases herr
    simpa [TimedOut] using h
  | ok recipe =>
    simp only [attemptResult] at herr
    split at herr
    · rename_i e hv
      cases herr
      obtain ⟨detail, _, rfl⟩ := validateRecipe_invalid hv
      rfl
    · cases herr

/-- The attempt loop with what follows it. -/
theorem recipeAttempts_succ_bind {α : Type} (man : Manifest) (attempts : ℕ) (priorError : String)
    (lastErr : Err) (f : Except Err Recipe → Run α) :
    recipeAttempts req man (attempts + 1) priorError lastErr >>= f =
      .call (Eff.llmInvoke ⟨req.prompt, man, priorError⟩) fun _ =>
        .call Eff.llmReturn fun outcome =>
          match attemptResult man outcome with
          | .ok recipe => f (.ok recipe)
          | .error err =>
            match err.invalid with
            | none => f (.error err)
            | some detail => recipeAttempts req man attempts detail err >>= f := by
  rw [recipeAttempts_succ, Prog.call_bind]
  refine congrArg _ (funext fun _ => ?_)
  rw [Prog.call_bind]
  refine congrArg _ (funext fun outcome => ?_)
  cases attemptResult man outcome with
  | ok recipe => rfl
  | error err => cases hinv : err.invalid <;> simp [hinv]

theorem mute_recipeAttempts (man : Manifest) (start llmStart : ℤ) (attempts : ℕ)
    (priorError : String) (lastErr : Err)
    (h : 0 < attempts ∨ lastErr.deadlineExceeded = false) :
    Mute (recipeAttempts req man attempts priorError lastErr >>=
      afterLLM o req man start llmStart) := by
  induction attempts generalizing priorError lastErr with
  | zero =>
    refine mute_afterLLM o req man start llmStart ?_
    rintro _ ⟨⟩
    exact h.resolve_left (Nat.lt_irrefl 0)
  | succ n ih =>
    rw [recipeAttempts_succ_bind]
    refine mute_call rfl fun _ _ => mute_call rfl fun outcome hout => ?_
    cases hres : attemptResult man outcome with
    | ok recipe => exact mute_afterLLM o req man start llmStart (by simp)
    | error err =>
      have hd := attemptResult_deadline hout hres
      cases hinv : err.invalid with
      | none =>
        simp only [hinv]
        refine mute_afterLLM o req man start llmStart ?_
        rintro _ ⟨⟩
        exact hd
      | some detail =>
        simp only [hinv]
        exact ih detail err (.inr hd)

theorem settles_recipeAttempts (man : Manifest) (start llmStart : ℤ) (attempts : ℕ)
    (priorError : String) (lastErr : Err) :
    Always StoreAnswers Settles (recipeAttempts req man attempts priorError lastErr >>=
      afterLLM o req man start llmStart) := by
  induction attempts generalizing priorError lastErr with
  | zero => exact settles_afterLLM o req man start llmStart _
  | succ n ih =>
    have hm := mute_recipeAttempts o req man start llmStart (n + 1) priorError lastErr
      (.inl (Nat.succ_pos n))
    rw [recipeAttempts_succ_bind] at hm ⊢
    have hreturn := hm.answer (r := ()) trivial
    refine always_call (.inr (.inr hm)) fun _ _ => ?_
    refine always_call (.inr (.inr hreturn)) fun outcome _ => ?_
    cases hres : attemptResult man outcome with
    | ok recipe => exact settles_afterLLM o req man start llmStart _
    | error err =>
      cases hinv : err.invalid with
      | none =>
        simp only [hinv]
        exact settles_afterLLM o req man start llmStart _
      | some detail =>
        simp only [hinv]
        exact ih detail err

theorem mute_runWithManifest (start : ℤ) (man : Manifest) :
    Mute (runWithManifest o req start man) := by
  rw [runWithManifest_eq]
  exact mute_call rfl fun llmStart _ =>
    mute_recipeAttempts o req man start llmStart 2 "" _ (.inl Nat.two_pos)

/-- A run that starts under cancellation is mute from the start. -/
theorem mute_run : Mute (run o req) := by
  rw [run_eq]
  refine mute_call rfl fun start _ => mute_call rfl ?_
  rintro ready rfl
  exact mute_call rfl fun man _ => mute_runWithManifest o req start man

/-- **What is left of a run on a ready store** is mute, in the window of a Send, or about to
report a deadline error. -/
theorem run_settles : Always StoreAnswers Settles (run o req) := by
  have hm := mute_run o req
  rw [run_eq] at hm ⊢
  refine always_call (.inr (.inr hm)) fun start _ => ?_
  refine always_call (.inr (.inr (hm.answer trivial))) ?_
  rintro ready rfl
  have hman := (hm.answer (r := start) trivial).answer (r := true) rfl
  refine always_call (.inr (.inr hman)) fun man _ => ?_
  have hwith := mute_runWithManifest o req start man
  rw [runWithManifest_eq] at hwith ⊢
  exact always_call (.inr (.inr hwith)) fun llmStart _ =>
    settles_recipeAttempts o req man start llmStart 2 "" _

end Stages

end AetherForge
