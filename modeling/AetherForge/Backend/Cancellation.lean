import AetherForge.Backend.Hush
import AetherForge.Backend.SingleFlight

/-!
# Cancellation is quiet, except in three windows

After `Cancel` has returned, the generation it cancelled hands nothing over exactly when, at
that moment, its goroutine had not passed a context test with the Send still to come and was not
about to report a deadline error — provided no LLM call of it returns a deadline error later
(`cancel_quiet_iff`).  `late_complete` is a run in which a complete follows the cancellation.

* `Hushed` — a cancelled generation whose residual run is mute; `step_hushed` keeps it;
* `AllSettle` — every generation's residual settles, in every reachable state.
-/

namespace AetherForge

open Go Interaction Transition Slicing

section Hush

variable {o : Orchestrator} {s s' t : System} {out : List Action}

/-! ### Answers of the state -/

theorem answer_storeAnswers (hready : 0 < s.store.len) (g : Generation) (ans : Answers) (e : Eff) :
    StoreAnswers e (s.answer g ans e) := by
  cases e with
  | storeReady => exact decide_eq_true hready
  | _ => trivial

/-- The label lets an LLM call of the generation return a deadline error. -/
def TimesOut (s : System) (a : Label) (i : ℕ) : Prop :=
  ∃ ans g k, a = .goroutine i ans ∧ s.gens[i]? = some g ∧ g.pc = .running (.call .llmReturn k) ∧
    TimedOut ans.outcome

theorem answer_cancelledAnswers (hready : 0 < s.store.len) {g : Generation}
    (hc : g.cancelled = true) {ans : Answers} {e : Eff}
    (ht : e = .llmReturn → ¬TimedOut ans.outcome) :
    CancelledAnswers e (s.answer g ans e) := by
  cases e with
  | storeReady => exact decide_eq_true hready
  | ctxErr => exact hc
  | ctxDone => exact hc
  | llmReturn => exact ht rfl
  | _ => trivial

/-! ### Hushed generations -/

/-- The generation is cancelled, and what is left of its run is mute. -/
def Hushed (o : Orchestrator) (s : System) (i : ℕ) : Prop :=
  ∃ g, s.gens[i]? = some g ∧ g.cancelled = true ∧ Mute (g.left o)

/-- **Step lemma.**  Unless an LLM call returns a deadline error, a hushed generation stays
hushed, and hands nothing over. -/
theorem step_hushed {a : Label} {i : ℕ} (hready : 0 < s.store.len) (hI : OneLive s)
    (hh : Hushed o s i) (ht : ¬TimesOut s a i) (h : step o s a = some (s', out)) :
    Hushed o s' i ∧ sentMessages (eventsOf i out) = [] := by
  obtain ⟨g, hg, hc, hm⟩ := hh
  obtain ⟨g', hg', hev⟩ := step_evolves hI h hg
  rcases hev.moves with ⟨hleft, hout⟩ | ⟨ans, e, k, ha, hpc, hpc', hout⟩
  · rw [hout]
    exact ⟨⟨g', hg', hev.cancelled hc, hleft ▸ hm⟩, rfl⟩
  · simp only [Generation.left, hpc] at hm
    have hallowed : CancelledAnswers e (s.answer g ans e) := by
      refine answer_cancelledAnswers hready hc ?_
      rintro rfl htimed
      exact ht ⟨ans, g, k, ha, hg, hpc, htimed⟩
    refine ⟨⟨g', hg', hev.cancelled hc, ?_⟩, ?_⟩
    · simp only [Generation.left, hpc']
      exact hm.answer hallowed
    · -- a mute run is not at a Send
      rw [hout]
      have hnot := hm.here
      cases e with
      | send msg => exact absurd ⟨msg, k, rfl⟩ hnot
      | _ => rfl

theorem exec_store {as : List Label} (h : exec (step o) s as = some (t, out)) :
    t.store = s.store :=
  exec_invariant (I := fun m => m.store = s.store)
    (fun _ _ _ _ hm hstep => (step_store hstep).trans hm) rfl h

/-- **Run lemma.**  A hushed generation hands nothing over. -/
theorem exec_hushed {as : List Label} {i : ℕ} (hready : 0 < s.store.len) (hI : OneLive s)
    (hh : Hushed o s i) (ht : Along (step o) (fun s a => ¬TimesOut s a i) s as)
    (h : exec (step o) s as = some (t, out)) : ∀ m, (i, m) ∉ sent out := by
  have hrule := exec_invariant_along
    (I := fun m => m.store = s.store ∧ OneLive m ∧ Hushed o m i)
    (Q := fun x => ∀ m, x.message? ≠ some (i, m)) ?_ ⟨rfl, hI, hh⟩ ht h
  · intro m hm
    obtain ⟨x, hx, hmsg⟩ := List.mem_filterMap.mp hm
    exact hrule.2 x hx m hmsg
  · rintro m a m' out' ⟨hstore, hIm, hhm⟩ htm hstep
    obtain ⟨hh', hsilent⟩ := step_hushed (hstore ▸ hready) hIm hhm htm hstep
    refine ⟨⟨(step_store hstep).trans hstore, step_oneLive m a m' out' hIm hstep, hh'⟩, ?_⟩
    intro x hx msg hmsg
    have hmem : (i, msg) ∈ sent out' := List.mem_filterMap.mpr ⟨x, hx, hmsg⟩
    have hin : msg ∈ sentMessages (eventsOf i out') := by
      rw [← sent_filter_eq]
      exact List.mem_map.mpr ⟨(i, msg), List.mem_filter.mpr ⟨hmem, by simp⟩, rfl⟩
    rw [hsilent] at hin
    cases hin

/-! ### Residuals of reachable states -/

/-- What is left of every generation's run settles. -/
def AllSettle (o : Orchestrator) (s : System) : Prop :=
  ∀ (i : ℕ) (g : Generation), s.gens[i]? = some g → Always StoreAnswers Settles (g.left o)

theorem step_allSettle {a : Label} (hready : 0 < s.store.len) (hI : OneLive s)
    (hS : AllSettle o s) (h : step o s a = some (s', out)) : AllSettle o s' := by
  intro i g' hg'
  cases hg : s.gens[i]? with
  | none =>
    obtain ⟨_, hpc, _⟩ := step_new h hg hg'
    simp only [Generation.left, hpc]
    exact run_settles o g'.req
  | some g =>
    obtain ⟨g'', hg'', hev⟩ := step_evolves hI h hg
    rw [hg'] at hg''
    cases hg''
    have hs := hS i g hg
    rcases hev.moves with ⟨hleft, _⟩ | ⟨ans, e, k, _, hpc, hpc', _⟩
    · rw [hleft]
      exact hs
    · simp only [Generation.left, hpc] at hs
      simp only [Generation.left, hpc']
      exact hs.answer (answer_storeAnswers hready g ans e)

/-! ### The generation that Cancel matched -/

theorem matches?_some {generationId : String} {i : ℕ} (h : matches? s generationId = some i) :
    s.cur = some i ∧ ∃ g, s.gens[i]? = some g ∧ (generationId = "" ∨ g.id = generationId) := by
  unfold matches? at h
  split at h
  · cases h
  · rename_i g hcur
    split at h
    · cases h
    · rename_i gen hgen
      split at h
      · rename_i hmatch
        cases h
        exact ⟨hcur, gen, hgen, hmatch⟩
      · cases h

/-- The caller is about to cancel a generation that exists, or has cancelled it. -/
structure MatchedExists (s : System) : Prop where
  fire : ∀ i, s.caller = .cancelFire i → ∃ g, s.gens[i]? = some g
  fired : ∀ i, s.caller = .cancelUnlock (some i) → ∃ g, s.gens[i]? = some g ∧ g.cancelled = true

/-- A step that leaves the caller where it is. -/
theorem MatchedExists.evolve {a : Label} (hM : MatchedExists s) (hI : OneLive s)
    (h : step o s a = some (s', out)) (hc : s'.caller = s.caller) : MatchedExists s' := by
  constructor
  · intro i hi
    obtain ⟨g, hg⟩ := hM.fire i (hc ▸ hi)
    obtain ⟨g', hg', _⟩ := step_evolves hI h hg
    exact ⟨g', hg'⟩
  · intro i hi
    obtain ⟨g, hg, hcancelled⟩ := hM.fired i (hc ▸ hi)
    obtain ⟨g', hg', hev⟩ := step_evolves hI h hg
    exact ⟨g', hg', hev.cancelled hcancelled⟩

/-- The caller is about to cancel a generation that it has matched, or has just done so. -/
def Caller.fires : Caller → Bool
  | .cancelFire _ | .cancelUnlock (some _) => true
  | _ => false

/-- A step after which the caller is not cancelling. -/
theorem matchedExists_of_fires (h : s.caller.fires = false) : MatchedExists s := by
  constructor
  · intro i hi
    rw [hi] at h
    cases h
  · intro i hi
    rw [hi] at h
    cases h

theorem stepRetire_matchedExists {next : Option Generate} {pc : RetirePc}
    (h : stepRetire s next pc = some (s', out)) : MatchedExists s' := by
  have hretired : ∀ m : System, retired m next = (s', out) → MatchedExists s' := by
    intro m h
    cases next <;> cases h <;> exact matchedExists_of_fires rfl
  cases pc with
  | lock =>
    simp only [stepRetire] at h
    split at h <;> cases h
    exact matchedExists_of_fires rfl
  | unlock old =>
    cases old with
    | none =>
      simp only [stepRetire, Option.some.injEq] at h
      exact hretired _ h
    | some old =>
      cases h
      exact matchedExists_of_fires rfl
  | wait old =>
    simp only [stepRetire] at h
    split at h
    · exact hretired _ (Option.some.inj h)
    · cases h
  | _ =>
    cases h
    exact matchedExists_of_fires rfl

theorem stepCaller_matchedExists (hM : MatchedExists s) (h : stepCaller o s = some (s', out)) :
    MatchedExists s' := by
  unfold stepCaller at h
  split at h
  · cases h
  · exact stepRetire_matchedExists h
  · cases h
    exact matchedExists_of_fires rfl
  · split at h <;> cases h
    exact matchedExists_of_fires rfl
  · cases h
    exact matchedExists_of_fires rfl
  · cases h
    exact matchedExists_of_fires rfl
  · cases h
    exact matchedExists_of_fires rfl
  · split at h <;> cases h
    exact matchedExists_of_fires rfl
  · rename_i generationId hc
    cases h
    cases hm : matches? s generationId with
    | none => exact matchedExists_of_fires rfl
    | some g =>
      obtain ⟨_, gen, hgen, _⟩ := matches?_some hm
      constructor
      · rintro _ ⟨⟩
        exact ⟨gen, hgen⟩
      · rintro _ ⟨⟩
  · rename_i g hc
    cases h
    obtain ⟨gen, hgen⟩ := hM.fire g hc
    constructor
    · rintro _ ⟨⟩
    · rintro _ ⟨⟩
      refine ⟨{ gen with cancelled := true }, ?_, rfl⟩
      simp only [System.cancelContext, System.update_get, if_pos, hgen, Option.map_some]
  · cases h
    exact matchedExists_of_fires rfl

theorem step_matchedExists {a : Label} (hM : MatchedExists s) (hI : OneLive s)
    (h : step o s a = some (s', out)) : MatchedExists s' := by
  cases a with
  | call c =>
    simp only [step] at h
    split at h
    · cases h
      cases c <;> exact matchedExists_of_fires rfl
    · cases h
  | caller => exact stepCaller_matchedExists hM h
  | goroutine i ans =>
    refine hM.evolve hI h ?_
    simp only [step] at h
    split at h
    · cases h
    · exact (stepGoroutine_frame h).2.1
  | parentCancel =>
    refine hM.evolve hI h ?_
    cases h
    rfl

/-- What holds in every state of a run on a ready store. -/
theorem exec_settled {store : Manifest} {as : List Label} (hready : 0 < store.len)
    (h : exec (step o) (.start store) as = some (t, out)) :
    OneLive t ∧ AllSettle o t ∧ MatchedExists t := by
  have hrule := exec_invariant
    (I := fun m => m.store = store ∧ OneLive m ∧ AllSettle o m ∧ MatchedExists m) ?_
    ⟨rfl, oneLive_start store, fun i g hg => by simp [System.start] at hg,
      matchedExists_of_fires rfl⟩ h
  · exact hrule.2
  · rintro m a m' out' ⟨hstore, hIm, hSm, hMm⟩ hstep
    exact ⟨(step_store hstep).trans hstore, step_oneLive m a m' out' hIm hstep,
      step_allSettle (hstore ▸ hready) hIm hSm hstep, step_matchedExists hMm hIm hstep⟩

/-! ### Unsettled generations do hand a message over -/

/-- The next effect of a generation. -/
theorem step_effect {i : ℕ} {g : Generation} {e : Eff} {k : Resp e → Run Unit}
    (hg : s.gens[i]? = some g) (hpc : g.pc = .running (.call e k)) (ans : Answers) :
    step o s (.goroutine i ans) = some (s.setPc i (.running (k (s.answer g ans e))),
      [.effect i ⟨e, s.answer g ans e⟩]) := by
  simp only [step, hg, stepGoroutine, hpc]

theorem setPc_get {i : ℕ} {g : Generation} (hg : s.gens[i]? = some g) (pc : GenerationPc) :
    (s.setPc i pc).gens[i]? = some { g with pc := pc } := by
  rw [System.setPc, System.update_get, if_pos rfl, hg]
  rfl

/-- A goroutine whose run goes on with anything but the start of `run` is inside `run`. -/
theorem running_of_left {g : Generation} {e : Eff} {k : Resp e → Run Unit}
    (h : g.left o = .call e k) (hrun : run o g.req ≠ .call e k) : g.pc = .running (.call e k) := by
  unfold Generation.left at h
  split at h
  · exact absurd h hrun
  · rename_i hpc
    rw [hpc, h]
  · cases h

/-- Some answers, without a deadline error. -/
def plainAnswers : Answers := ⟨0, .ok none, 0, true⟩

/-- From here the generation can hand a message over, without any deadline error to come. -/
def CanHandOver (o : Orchestrator) (s : System) (i : ℕ) : Prop :=
  ∃ n t os m, exec (step o) s (goroutineSteps i n plainAnswers) = some (t, os) ∧ (i, m) ∈ sent os

theorem CanHandOver.before {i : ℕ} {ev : Event Eff Resp}
    (h : step o s (.goroutine i plainAnswers) = some (s', [.effect i ev]))
    (hs' : CanHandOver o s' i) : CanHandOver o s i := by
  obtain ⟨n, t, os, m, hexec, hm⟩ := hs'
  refine ⟨n + 1, t, .effect i ev :: os, m, ?_, ?_⟩
  · rw [goroutineSteps, List.replicate_succ, exec_cons_eq (step o) h]
    rw [goroutineSteps] at hexec
    rw [hexec]
    rfl
  · have hcons : sent (.effect i ev :: os) = sent [.effect i ev] ++ sent os := sent_append [_] os
    rw [hcons]
    exact List.mem_append_right _ hm

theorem canHandOver_of_send {i : ℕ} {g : Generation} (msg : Message) (k : Bool → Run Unit)
    (hg : s.gens[i]? = some g) (hpc : g.pc = .running (.call (.send msg) k)) :
    CanHandOver o s i := by
  have hexec : exec (step o) s (goroutineSteps i 1 plainAnswers) =
      some (s.setPc i (.running (k true)), [.effect i ⟨.send msg, true⟩]) := by
    rw [goroutineSteps, List.replicate_one, exec_cons_eq (step o) (step_effect hg hpc plainAnswers)]
    rfl
  exact ⟨1, _, _, msg, hexec, List.mem_singleton.mpr rfl⟩

theorem canHandOver_of_report {i : ℕ} {g : Generation} (id : String) {err : Err}
    (hd : err.deadlineExceeded = true) (hg : s.gens[i]? = some g)
    (hpc : g.pc = .running (reportRecipeError id err)) : CanHandOver o s i := by
  rw [reportRecipeError_eq] at hpc
  have hstep := step_effect (o := o) hg hpc plainAnswers
  refine .before hstep ?_
  -- the test of the context changes nothing for a deadline error
  refine canHandOver_of_send (errorMessage id (recipeErrorCode err) (recipeErrorText err) true)
    (fun _ => .ret ()) (setPc_get hg _) ?_
  simp only [hd, Bool.not_true, Bool.and_false, Bool.false_eq_true, if_false, sendError_eq]

/-- An unsettled generation can hand a message over, cancelled or not. -/
theorem canHandOver_of_unsettled {i : ℕ} {g : Generation} (hg : s.gens[i]? = some g)
    (h : InSendWindow (g.left o) ∨ ReportingTimeout (g.left o)) : CanHandOver o s i := by
  rcases h with ⟨msg, k, hleft⟩ | ⟨id, err, hd, hleft | hleft⟩
  · refine canHandOver_of_send msg k hg (running_of_left hleft ?_)
    rw [run_eq]
    nofun
  · refine canHandOver_of_report id hd hg ?_
    rw [reportRecipeError_eq] at hleft ⊢
    refine running_of_left hleft ?_
    rw [run_eq]
    nofun
  · have hpc : g.pc = .running (.call Eff.now fun _ => reportRecipeError id err) := by
      refine running_of_left hleft ?_
      rw [run_eq]
      intro heq
      injection heq with _ hk
      have hhead := congrFun hk 0
      rw [reportRecipeError_eq] at hhead
      cases hhead
    exact .before (step_effect hg hpc plainAnswers)
      (canHandOver_of_report id hd (setPc_get hg _) rfl)

end Hush

/-! ### Cancellation -/

/-- What is left of the generation's run will not hand a message over in spite of a done
context: it has not passed a test with the Send still to come, and has no deadline error to
report. -/
def Settled (o : Orchestrator) (s : System) (i : ℕ) : Prop :=
  ∀ g, s.gens[i]? = some g → ¬InSendWindow (g.left o) ∧ ¬ReportingTimeout (g.left o)

/-- **When cancellation is quiet.**  Let `Cancel` be about to return, having matched generation
`i`, in any run of the system on a store with a manifest.  In every continuation in which no
LLM call of that generation returns a deadline error, it hands no message over — exactly when
its goroutine is settled at that moment. -/
theorem cancel_quiet_iff (o : Orchestrator) (store : Manifest) (hready : 0 < store.len)
    (as : List Label) (s : System) (os : List Action)
    (h : exec (step o) (.start store) as = some (s, os)) (i : ℕ)
    (hc : s.caller = .cancelUnlock (some i)) :
    (∀ bs t os', exec (step o) s (.caller :: bs) = some (t, .cancelReturned (some i) :: os') →
      Along (step o) (fun s a => ¬TimesOut s a i) s (.caller :: bs) →
      ∀ m, (i, m) ∉ sent os') ↔ Settled o s i := by
  obtain ⟨hI, hS, hM⟩ := exec_settled hready h
  obtain ⟨g, hg, hcancelled⟩ := hM.fired i hc
  have hstore : s.store = store := exec_store h
  have hreturn : step o s .caller =
      some ({ s with mu := none, caller := .idle }, [.cancelReturned (some i)]) := by
    simp only [step, stepCaller, hc]
  constructor
  · intro hquiet g' hg'
    rw [hg] at hg'
    cases hg'
    rw [← not_or]
    intro hunsettled
    have hafter : CanHandOver o { s with mu := none, caller := .idle } i :=
      canHandOver_of_unsettled hg hunsettled
    obtain ⟨n, t, os', m, hexec, hm⟩ := hafter
    refine hquiet (goroutineSteps i n plainAnswers) t os' ?_ ?_ m hm
    · rw [exec_cons_eq (step o) hreturn, hexec]
      rfl
    · refine along_of_forall ?_ s
      intro a ha s'
      rintro ⟨ans, _, _, rfl, _, _, htimed⟩
      rcases List.mem_cons.mp ha with heq | hin
      · cases heq
      · cases List.eq_of_mem_replicate hin
        exact htimed
  · intro hsettled bs t os' hexec halong
    obtain ⟨hwindow, hreport⟩ := hsettled g hg
    have hmute : Mute (g.left o) :=
      ((hS i g hg).here.resolve_left hwindow).resolve_left hreport
    obtain ⟨s', out, os₂, hstep, hrest, hos⟩ := exec_cons_inv hexec
    rw [hreturn] at hstep
    cases hstep
    obtain rfl : os' = os₂ := (List.cons.inj hos).2
    have hI' := step_oneLive s .caller _ _ hI hreturn
    exact exec_hushed (hstore ▸ hready) hI' ⟨g, hg, hcancelled, hmute⟩ (halong.2 _ _ hreturn) hrest

/-- A generation is cancelled while the model works. -/
def earlyCancelSchedule : List Label :=
  [.call (.generate meadowRequest)] ++ callerSteps 9 ++
    goroutineSteps 0 5 (recipeAnswers meadowRecipe) ++ [.call (.cancel "g1")] ++ callerSteps 3

/-- `Cancel` is about to return, and the model has not answered. -/
def cancelsAtModel (p : System × List Action) : Bool :=
  match p.1.caller, p.1.gens with
  | .cancelUnlock (some 0), [⟨_, _, _, .running (.call .llmReturn _)⟩] => true
  | _, _ => false

theorem cancel_quiet_early :
    ∃ s os, exec (step (.new sawtoothDraws)) (.start meadowManifest) earlyCancelSchedule =
        some (s, os) ∧ s.caller = .cancelUnlock (some 0) ∧
      ∀ bs t os', exec (step (.new sawtoothDraws)) s (.caller :: bs) =
          some (t, .cancelReturned (some 0) :: os') →
        Along (step (.new sawtoothDraws)) (fun s a => ¬TimesOut s a 0) s (.caller :: bs) →
        ∀ m, (0, m) ∉ sent os' := by
  have hrun : (exec (step (.new sawtoothDraws)) (.start meadowManifest) earlyCancelSchedule).map
      cancelsAtModel = some true := by decide +kernel
  obtain ⟨⟨s, os⟩, hexec, hat⟩ := Option.map_eq_some_iff.mp hrun
  simp only [cancelsAtModel] at hat
  split at hat
  · rename_i id req cancelled k hcaller hgens
    refine ⟨s, os, hexec, hcaller, (cancel_quiet_iff (.new sawtoothDraws) meadowManifest (by decide)
      earlyCancelSchedule s os hexec 0 hcaller).mpr ?_⟩
    intro g hg
    rw [hgens] at hg
    cases hg
    constructor
    · rintro ⟨_, _, h⟩
      cases h
    · rintro ⟨id', err, _, h | h⟩
      · rw [reportRecipeError_eq] at h
        cases h
      · cases h
  · cases hat

/-- The stream is at its end, past its last test of the context, when `Cancel` comes. -/
def lateCancelSchedule : List Label :=
  [.call (.generate meadowRequest)] ++ callerSteps 9 ++
    goroutineSteps 0 13 (recipeAnswers meadowRecipe) ++ [.call (.cancel "g1")] ++ callerSteps 3

/-- `Cancel` is about to return; then it returns, and a complete follows. -/
def completesLate (p : System × List Action) : Bool :=
  match p.1.caller, exec (step (.new sawtoothDraws)) p.1
      [.caller, .goroutine 0 (recipeAnswers meadowRecipe)] with
  | .cancelUnlock (some 0),
    some (_, [.cancelReturned (some 0), .effect 0 ⟨.send (.complete _), _⟩]) => true
  | _, _ => false

/-- **A complete after a cancellation.** -/
theorem late_complete :
    ∃ s os t os' c, exec (step (.new sawtoothDraws)) (.start meadowManifest) lateCancelSchedule =
        some (s, os) ∧ s.caller = .cancelUnlock (some 0) ∧
      exec (step (.new sawtoothDraws)) s [.caller, .goroutine 0 (recipeAnswers meadowRecipe)] =
        some (t, .cancelReturned (some 0) :: os') ∧ (0, .complete c) ∈ sent os' := by
  have hrun : (exec (step (.new sawtoothDraws)) (.start meadowManifest) lateCancelSchedule).map
      completesLate = some true := by decide +kernel
  obtain ⟨⟨s, os⟩, hexec, hlate⟩ := Option.map_eq_some_iff.mp hrun
  simp only [completesLate] at hlate
  split at hlate
  · rename_i t c ok hcaller hafter
    exact ⟨s, os, t, _, c, hexec, hcaller, hafter, List.mem_singleton.mpr rfl⟩
  · cases hlate

end AetherForge
