import AetherForge.Backend.Exclusion

/-!
# What a step shows and does

Two inversion lemmas say what any step of the system can do: `step_shows` says what its outputs
tell about it, and `step_evolves` what it does to each generation.  From them, every generation
runs the pipeline: the effects that a run of the system shows for it are a trace of `run` on its
request (`exec_tracesRuns`).
-/

namespace AetherForge

open Go Interaction Transition

section Steps

variable {o : Orchestrator} {s s' : System} {out : List Action}

/-! ### What a step shows -/

/-- The outputs of a step, each with what it says about the step. -/
inductive Shows (o : Orchestrator) (s : System) (a : Label) (s' : System) : List Action → Prop
  | nothing : Shows o s a s' []
  | effect (i : ℕ) (g : Generation) (ans : Answers) (e : Eff) (k : Resp e → Run Unit)
      (ha : a = .goroutine i ans) (hg : s.gens[i]? = some g) (hpc : g.pc = .running (.call e k))
      (hs : s' = s.setPc i (.running (k (s.answer g ans e)))) :
      Shows o s a s' [.effect i ⟨e, s.answer g ans e⟩]
  | launched (g : ℕ) (ha : a = .caller) (hc : s.caller = .launch g)
      (hs : s' = { s.update g fun gen => { gen with pc := .running (run o gen.req) } with
        caller := .idle }) :
      Shows o s a s' [.launched g]
  | cancelReturned (matched : Option ℕ) (ha : a = .caller) (hc : s.caller = .cancelUnlock matched)
      (hs : s' = { s with mu := none, caller := .idle }) :
      Shows o s a s' [.cancelReturned matched]
  | shutdownReturned (ha : a = .caller) (hc : s'.caller = .idle) (hgens : s'.gens = s.gens)
      (hnone : ∀ i pc, pcAt s.gens i = some pc → pc.live = false) :
      Shows o s a s' [.shutdownReturned s.gens.length]

theorem stepGoroutine_shows {i : ℕ} {g : Generation} {ans : Answers} (hg : s.gens[i]? = some g)
    (h : stepGoroutine s i g ans = some (s', out)) :
    Shows o s (.goroutine i ans) s' out := by
  unfold stepGoroutine at h
  cases hpc : g.pc with
  | created | exited =>
    rw [hpc] at h
    cases h
  | running p =>
    rw [hpc] at h
    cases p with
    | ret a =>
      cases hmu : s.mu with
      | some x => simp [hmu] at h
      | none =>
        simp only [hmu, Option.some.injEq, Prod.mk.injEq] at h
        obtain ⟨rfl, rfl⟩ := h
        exact .nothing
    | call e k =>
      cases h
      exact .effect i g ans e k rfl hg hpc rfl
  | testing | clearing | unlocking | cancelling | closing =>
    rw [hpc] at h
    cases h
    exact .nothing

theorem stepRetire_shows {next : Option Generate} {pc : RetirePc} (hI : OneLive s)
    (hc : s.caller = .retire next pc) (h : stepRetire s next pc = some (s', out)) :
    Shows o s .caller s' out := by
  cases pc with
  | lock =>
    simp only [stepRetire] at h
    split at h
    · cases h
    · cases h
      exact .nothing
  | unlock old =>
    cases old with
    | none =>
      have hnone := hI.none_live_of_unlock hc
      cases next with
      | none =>
        cases h
        exact .shutdownReturned rfl rfl rfl hnone
      | some req =>
        cases h
        exact .nothing
    | some old =>
      cases h
      exact .nothing
  | wait old =>
    simp only [stepRetire] at h
    split at h
    · rename_i hdone
      have hnone := hI.none_live_of_wait hc hdone
      cases next with
      | none =>
        cases h
        exact .shutdownReturned rfl rfl rfl hnone
      | some req =>
        cases h
        exact .nothing
    · cases h
  | _ =>
    cases h
    exact .nothing

/-- **What a step shows.** -/
theorem step_shows {a : Label} (hI : OneLive s) (h : step o s a = some (s', out)) :
    Shows o s a s' out := by
  cases a with
  | call c =>
    simp only [step] at h
    split at h
    · cases h
      exact .nothing
    · cases h
  | goroutine i ans =>
    simp only [step] at h
    split at h
    · cases h
    · rename_i g hg
      exact stepGoroutine_shows hg h
  | parentCancel =>
    cases h
    exact .nothing
  | caller =>
    simp only [step, stepCaller] at h
    split at h
    · cases h
    · rename_i next pc hc
      exact stepRetire_shows hI hc h
    · cases h
      exact .nothing
    · split at h
      · cases h
      · cases h
        exact .nothing
    · cases h
      exact .nothing
    · cases h
      exact .nothing
    · rename_i g hc
      cases h
      exact .launched g rfl hc rfl
    · split at h
      · cases h
      · cases h
        exact .nothing
    · cases h
      exact .nothing
    · cases h
      exact .nothing
    · rename_i matched hc
      cases h
      exact .cancelReturned matched rfl hc rfl

/-! ### What a step does to a generation -/

/-- What is left of the generation's `run`. -/
def Generation.left (o : Orchestrator) (g : Generation) : Run Unit :=
  match g.pc with
  | .created => run o g.req
  | .running p => p
  | _ => .ret ()

/-- The event of one generation that an output shows. -/
def Action.eventOf (i : ℕ) : Action → Option (Event Eff Resp)
  | .effect g ev => if g = i then some ev else none
  | _ => none

/-- The events of one generation. -/
def eventsOf (i : ℕ) (os : List Action) : List (Event Eff Resp) := os.filterMap (Action.eventOf i)

theorem eventsOf_append (i : ℕ) (os os' : List Action) :
    eventsOf i (os ++ os') = eventsOf i os ++ eventsOf i os' := List.filterMap_append

theorem eventsOf_of_none {i : ℕ} {a : Label} (h : Shows o s a s' out)
    (hi : s.gens[i]? = none) : eventsOf i out = [] := by
  cases h with
  | effect j g ans e k ha hg hpc hs =>
    have hne : j ≠ i := by
      rintro rfl
      rw [hi] at hg
      cases hg
    simp [eventsOf, Action.eventOf, hne]
  | _ => rfl

/-- One generation before and after a step: its `run` does not move, or it performs its next
effect, answered by the state. -/
structure Evolves (o : Orchestrator) (s : System) (a : Label) (i : ℕ) (g g' : Generation)
    (evs : List (Event Eff Resp)) : Prop where
  id : g'.id = g.id
  req : g'.req = g.req
  cancelled : g.cancelled = true → g'.cancelled = true
  live : g'.pc.live = true → g.pc.live = true ∨ s.caller.starting = some i
  moves : (g'.left o = g.left o ∧ evs = []) ∨
    ∃ ans e k, a = .goroutine i ans ∧ g.pc = .running (.call e k) ∧
      g'.pc = .running (k (s.answer g ans e)) ∧ evs = [⟨e, s.answer g ans e⟩]

theorem Evolves.refl (o : Orchestrator) (s : System) (a : Label) (i : ℕ) (g : Generation) :
    Evolves o s a i g g [] := ⟨rfl, rfl, fun h => h, .inl, .inl ⟨rfl, rfl⟩⟩

theorem stepGoroutine_evolves {i j : ℕ} {g gj : Generation} {ans : Answers}
    (hg : s.gens[i]? = some g) (h : stepGoroutine s i g ans = some (s', out))
    (hj : s.gens[j]? = some gj) :
    ∃ g', s'.gens[j]? = some g' ∧ Evolves o s (.goroutine i ans) j gj g' (eventsOf j out) := by
  -- what happens to `gens` is one update of generation `i`
  have hupdate : ∀ (f : Generation → Generation) (evs : List (Event Eff Resp)),
      s'.gens = (s.update i f).gens → (i ≠ j → evs = []) →
      (i = j → Evolves o s (.goroutine i ans) j g (f g) evs) →
      ∃ g', s'.gens[j]? = some g' ∧ Evolves o s (.goroutine i ans) j gj g' evs := by
    intro f evs hgens hother hself
    rw [hgens, System.update_get, hj]
    by_cases hij : i = j
    · rw [if_pos hij]
      subst hij
      rw [hg] at hj
      cases hj
      exact ⟨_, rfl, hself rfl⟩
    · rw [if_neg hij, hother hij]
      exact ⟨gj, rfl, .refl o s _ j gj⟩
  unfold stepGoroutine at h
  split at h
  · cases h
  · rename_i e k hpc
    cases h
    refine hupdate _ _ rfl (fun hij => ?_) fun hij =>
      ⟨rfl, rfl, fun h => h, fun _ => .inl (by rw [hpc]; rfl), .inr ?_⟩
    · simp [eventsOf, Action.eventOf, hij]
    · subst hij
      exact ⟨ans, e, k, rfl, hpc, rfl, by simp [eventsOf, Action.eventOf]⟩
  · rename_i a hpc
    split at h
    · cases h
    · cases h
      refine hupdate _ _ rfl (fun _ => rfl) fun _ =>
        ⟨rfl, rfl, fun h => h, fun _ => .inl (by rw [hpc]; rfl), .inl ⟨?_, rfl⟩⟩
      simp [Generation.left, hpc]
  · rename_i hpc
    cases h
    refine hupdate _ _ rfl (fun _ => rfl) fun _ =>
      ⟨rfl, rfl, fun h => h, fun _ => .inl (by rw [hpc]; rfl), .inl ⟨?_, rfl⟩⟩
    by_cases hcur : s.cur = some i <;> simp [Generation.left, hpc, hcur]
  · rename_i hpc
    cases h
    refine hupdate _ _ rfl (fun _ => rfl) fun _ =>
      ⟨rfl, rfl, fun h => h, nofun, .inl ⟨?_, rfl⟩⟩
    simp [Generation.left, hpc]
  · rename_i hpc
    cases h
    refine hupdate _ _ rfl (fun _ => rfl) fun _ =>
      ⟨rfl, rfl, fun h => h, nofun, .inl ⟨?_, rfl⟩⟩
    simp [Generation.left, hpc]
  · rename_i hpc
    cases h
    refine hupdate (fun g => { g with cancelled := true, pc := .closing }) _ ?_ (fun _ => rfl)
      fun _ => ⟨rfl, rfl, fun _ => rfl, nofun, .inl ⟨?_, rfl⟩⟩
    · exact List.modify_modify_eq _ _ _ _
    · simp [Generation.left, hpc]
  · rename_i hpc
    cases h
    refine hupdate _ _ rfl (fun _ => rfl) fun _ =>
      ⟨rfl, rfl, fun h => h, nofun, .inl ⟨?_, rfl⟩⟩
    simp [Generation.left, hpc]
  · cases h

/-- A step of the caller shows no effect; it may cancel, create or launch one generation. -/
theorem stepCaller_gens (h : stepCaller o s = some (s', out)) :
    s'.store = s.store ∧ (∀ i, eventsOf i out = []) ∧
      (s'.gens = s.gens ∨ (∃ i, s'.gens = (s.cancelContext i).gens) ∨
        (∃ req, s'.gens = s.gens ++ [⟨req.generationId, req, s.parentDone, .created⟩]) ∨
        ∃ g, s.caller = .launch g ∧
          s'.gens = (s.update g fun gen => { gen with pc := .running (run o gen.req) }).gens) := by
  have hretired : ∀ (m : System) next, m.store = s.store → m.gens = s.gens →
      retired m next = (s', out) →
      s'.store = s.store ∧ (∀ i, eventsOf i out = []) ∧ s'.gens = s.gens := by
    intro m next hstore hgens h
    cases next <;> cases h <;> exact ⟨hstore, fun _ => rfl, hgens⟩
  unfold stepCaller at h
  split at h
  · cases h
  · rename_i next pc hc
    cases pc with
    | lock =>
      simp only [stepRetire] at h
      split at h
      · cases h
      · cases h
        exact ⟨rfl, fun _ => rfl, .inl rfl⟩
    | unlock old =>
      cases old with
      | none =>
        simp only [stepRetire, Option.some.injEq] at h
        obtain ⟨hst, hout, hgens⟩ := hretired { s with mu := none } next rfl rfl h
        exact ⟨hst, hout, .inl hgens⟩
      | some old =>
        cases h
        exact ⟨rfl, fun _ => rfl, .inl rfl⟩
    | cancel old =>
      cases h
      exact ⟨rfl, fun _ => rfl, .inr (.inl ⟨old, rfl⟩)⟩
    | wait old =>
      simp only [stepRetire] at h
      split at h
      · obtain ⟨hst, hout, hgens⟩ := hretired _ next rfl rfl (Option.some.inj h)
        exact ⟨hst, hout, .inl hgens⟩
      · cases h
    | _ =>
      cases h
      exact ⟨rfl, fun _ => rfl, .inl rfl⟩
  · rename_i req hc
    cases h
    exact ⟨rfl, fun _ => rfl, .inr (.inr (.inl ⟨req, rfl⟩))⟩
  · split at h
    · cases h
    · cases h
      exact ⟨rfl, fun _ => rfl, .inl rfl⟩
  · cases h
    exact ⟨rfl, fun _ => rfl, .inl rfl⟩
  · cases h
    exact ⟨rfl, fun _ => rfl, .inl rfl⟩
  · rename_i g hc
    cases h
    exact ⟨rfl, fun _ => rfl, .inr (.inr (.inr ⟨g, hc, rfl⟩))⟩
  · split at h
    · cases h
    · cases h
      exact ⟨rfl, fun _ => rfl, .inl rfl⟩
  · cases h
    exact ⟨rfl, fun _ => rfl, .inl rfl⟩
  · rename_i g hc
    cases h
    exact ⟨rfl, fun _ => rfl, .inr (.inl ⟨g, rfl⟩)⟩
  · cases h
    exact ⟨rfl, fun _ => rfl, .inl rfl⟩

/-- **What a step does to a generation.** -/
theorem step_evolves {a : Label} (hI : OneLive s) (h : step o s a = some (s', out)) {j : ℕ}
    {gj : Generation} (hj : s.gens[j]? = some gj) :
    ∃ g', s'.gens[j]? = some g' ∧ Evolves o s a j gj g' (eventsOf j out) := by
  cases a with
  | call c =>
    simp only [step] at h
    split at h
    · cases h
      exact ⟨gj, hj, .refl o s _ j gj⟩
    · cases h
  | goroutine i ans =>
    simp only [step] at h
    split at h
    · cases h
    · rename_i g hg
      exact stepGoroutine_evolves hg h hj
  | parentCancel =>
    cases h
    refine ⟨{ gj with cancelled := true }, ?_, rfl, rfl, fun _ => rfl, .inl, .inl ⟨rfl, rfl⟩⟩
    simp only [List.getElem?_map, hj, Option.map_some]
  | caller =>
    obtain ⟨_, hout, hgens⟩ := stepCaller_gens h
    rw [hout j]
    rcases hgens with hgens | ⟨i, hgens⟩ | ⟨req, hgens⟩ | ⟨g, hc, hgens⟩
    · exact ⟨gj, hgens ▸ hj, .refl o s _ j gj⟩
    · rw [hgens, System.cancelContext, System.update_get, hj]
      by_cases hij : i = j
      · exact ⟨_, if_pos hij, rfl, rfl, fun _ => rfl, .inl, .inl ⟨rfl, rfl⟩⟩
      · exact ⟨gj, if_neg hij, .refl o s _ j gj⟩
    · refine ⟨gj, ?_, .refl o s _ j gj⟩
      rw [hgens, List.getElem?_append_left (List.getElem?_eq_some_iff.mp hj).1, hj]
    · rw [hgens, System.update_get, hj]
      by_cases hij : g = j
      · have hstarting : s.caller.starting = some g := by
          rw [hc]
          rfl
        refine ⟨_, if_pos hij, rfl, rfl, fun h => h, fun _ => .inr (hij ▸ hstarting),
          .inl ⟨?_, rfl⟩⟩
        -- the generation to be launched has not run yet
        have hcreated := (hI.starting g hstarting).2
        rw [hij, pcAt_of_get hj] at hcreated
        simp only [Generation.left, Option.some.inj hcreated]
      · exact ⟨gj, if_neg hij, .refl o s _ j gj⟩

theorem stepGoroutine_frame {i : ℕ} {g : Generation} {ans : Answers}
    (h : stepGoroutine s i g ans = some (s', out)) :
    s'.store = s.store ∧ s'.caller = s.caller ∧ s'.gens.length = s.gens.length ∧
      (s'.cur = s.cur ∨ (g.pc = .clearing ∧ s'.cur = none)) := by
  unfold stepGoroutine at h
  split at h
  · cases h
  · cases h
    exact ⟨rfl, rfl, s.setPc_length i _, .inl rfl⟩
  · split at h
    · cases h
    · cases h
      exact ⟨rfl, rfl, s.setPc_length i _, .inl rfl⟩
  · cases h
    exact ⟨rfl, rfl, s.setPc_length i _, .inl rfl⟩
  · rename_i hpc
    cases h
    exact ⟨rfl, rfl, s.setPc_length i _, .inr ⟨hpc, rfl⟩⟩
  · cases h
    exact ⟨rfl, rfl, s.setPc_length i _, .inl rfl⟩
  · cases h
    refine ⟨rfl, rfl, ?_, .inl rfl⟩
    rw [System.setPc_length, System.cancelContext_length]
  · cases h
    exact ⟨rfl, rfl, s.setPc_length i _, .inl rfl⟩
  · cases h

/-- A step adds no generation, or the caller's new one. -/
theorem step_grows {a : Label} (h : step o s a = some (s', out)) :
    s'.gens.length = s.gens.length ∨ ((∀ i, eventsOf i out = []) ∧
      ∃ req, s'.gens = s.gens ++ [⟨req.generationId, req, s.parentDone, .created⟩]) := by
  cases a with
  | call c =>
    simp only [step] at h
    split at h
    · cases h
      exact .inl rfl
    · cases h
  | goroutine i ans =>
    simp only [step] at h
    split at h
    · cases h
    · exact .inl (stepGoroutine_frame h).2.2.1
  | parentCancel =>
    cases h
    exact .inl (List.length_map _)
  | caller =>
    obtain ⟨_, hout, hgens⟩ := stepCaller_gens h
    rcases hgens with hgens | ⟨i, hgens⟩ | ⟨req, hgens⟩ | ⟨g, _, hgens⟩
    · exact .inl (by rw [hgens])
    · exact .inl (by rw [hgens, System.cancelContext_length])
    · exact .inr ⟨hout, req, hgens⟩
    · exact .inl (by rw [hgens, System.update_length])

theorem stepRetire_starting {next : Option Generate} {pc : RetirePc}
    (h : stepRetire s next pc = some (s', out)) : s'.caller.starting = none := by
  have hretired : ∀ m : System, retired m next = (s', out) → s'.caller.starting = none := by
    intro m h
    cases next <;> cases h <;> rfl
  cases pc with
  | lock =>
    simp only [stepRetire] at h
    split at h <;> cases h
    rfl
  | unlock old =>
    cases old with
    | none =>
      simp only [stepRetire, Option.some.injEq] at h
      exact hretired _ h
    | some old =>
      cases h
      rfl
  | wait old =>
    simp only [stepRetire] at h
    split at h
    · exact hretired _ (Option.some.inj h)
    · cases h
  | _ =>
    cases h
    rfl

/-- A generation to be started has been created by this step, or before. -/
theorem step_starting {a : Label} {g : ℕ} (h : step o s a = some (s', out))
    (hg : s'.caller.starting = some g) : s.caller.starting = some g ∨ g = s.gens.length := by
  cases a with
  | call c =>
    simp only [step] at h
    split at h
    · cases h
      cases c <;> cases hg
    · cases h
  | goroutine i ans =>
    simp only [step] at h
    split at h
    · cases h
    · rw [(stepGoroutine_frame h).2.1] at hg
      exact .inl hg
  | parentCancel =>
    cases h
    exact .inl hg
  | caller =>
    simp only [step, stepCaller] at h
    cases hc : s.caller with
    | retire next pc =>
      rw [hc] at h
      rw [stepRetire_starting h] at hg
      cases hg
    | idle =>
      rw [hc] at h
      cases h
    | create req =>
      rw [hc] at h
      cases h
      exact .inr (Option.some.inj hg).symm
    | install | installUnlock =>
      rw [hc] at h
      cases h
      exact .inl hg
    | launch | cancelFire | cancelUnlock =>
      rw [hc] at h
      cases h
      cases hg
    | cancelTest generationId =>
      rw [hc] at h
      cases h
      revert hg
      cases matches? s generationId <;> rintro ⟨⟩
    | installLock next =>
      rw [hc] at h
      cases hmu : s.mu with
      | some x => simp [hmu] at h
      | none =>
        simp only [hmu, Option.some.injEq, Prod.mk.injEq] at h
        obtain ⟨rfl, rfl⟩ := h
        exact .inl hg
    | cancelLock generationId =>
      rw [hc] at h
      cases hmu : s.mu with
      | some x => simp [hmu] at h
      | none =>
        simp only [hmu, Option.some.injEq, Prod.mk.injEq] at h
        obtain ⟨rfl, rfl⟩ := h
        cases hg

/-- A generation that a step adds is the youngest, and has not started. -/
theorem step_new {a : Label} (h : step o s a = some (s', out)) {j : ℕ} {g' : Generation}
    (hj : s.gens[j]? = none) (hj' : s'.gens[j]? = some g') :
    j = s.gens.length ∧ g'.pc = .created ∧ g'.id = g'.req.generationId ∧ eventsOf j out = [] := by
  have hle := List.getElem?_eq_none_iff.mp hj
  have hlt := (List.getElem?_eq_some_iff.mp hj').1
  rcases step_grows h with hlen | ⟨hout, req, hgens⟩
  · omega
  · rw [hgens, List.length_append, List.length_singleton] at hlt
    obtain rfl : j = s.gens.length := by omega
    rw [hgens, List.getElem?_concat_length] at hj'
    cases hj'
    exact ⟨rfl, rfl, rfl, hout _⟩

theorem step_store {a : Label} (h : step o s a = some (s', out)) : s'.store = s.store := by
  cases a with
  | call c =>
    simp only [step] at h
    split at h
    · cases h
      rfl
    · cases h
  | goroutine i ans =>
    simp only [step] at h
    split at h
    · cases h
    · exact (stepGoroutine_frame h).1
  | parentCancel =>
    cases h
    rfl
  | caller => exact (stepCaller_gens h).1

/-- **A cleanup clears only its own slot.** -/
theorem step_goroutine_cur {i : ℕ} {ans : Answers} (hI : OneLive s)
    (h : step o s (.goroutine i ans) = some (s', out)) :
    s'.cur = s.cur ∨ (s.cur = some i ∧ s'.cur = none) := by
  simp only [step] at h
  split at h
  · cases h
  · rename_i g hg
    rcases (stepGoroutine_frame h).2.2.2 with hsame | ⟨hpc, hnone⟩
    · exact .inl hsame
    · exact .inr ⟨hI.clearing i (by rw [pcAt_of_get hg, hpc]), hnone⟩

/-! ### Whole runs -/

/-- The invariant over runs. -/
theorem exec_oneLive {as : List Label} (hI : OneLive s)
    (h : exec (step o) s as = some (s', out)) : OneLive s' :=
  exec_invariant (step_oneLive (o := o)) hI h

/-- The outputs so far show, for each generation, a trace of its `run`. -/
def TracesRuns (o : Orchestrator) (past : List Action) (s : System) : Prop :=
  (∀ i g, s.gens[i]? = some g →
    g.id = g.req.generationId ∧ Trace (run o g.req) (eventsOf i past) (g.left o)) ∧
  ∀ i, s.gens[i]? = none → eventsOf i past = []

theorem step_tracesRuns {past : List Action} {a : Label} (hI : OneLive s)
    (hJ : TracesRuns o past s) (h : step o s a = some (s', out)) :
    TracesRuns o (past ++ out) s' := by
  constructor
  · intro i g' hg'
    rw [eventsOf_append]
    cases hg : s.gens[i]? with
    | none =>
      obtain ⟨_, hpc, hid, hout⟩ := step_new h hg hg'
      rw [hJ.2 i hg, hout]
      refine ⟨hid, ?_⟩
      simp only [Generation.left, hpc, List.append_nil]
      exact .nil _
    | some g =>
      obtain ⟨hid, htrace⟩ := hJ.1 i g hg
      obtain ⟨g'', hg'', hev⟩ := step_evolves hI h hg
      rw [hg'] at hg''
      cases hg''
      rw [hev.id, hev.req]
      refine ⟨hid, ?_⟩
      rcases hev.moves with ⟨hleft, hout⟩ | ⟨ans, e, k, _, hpc, hpc', hout⟩
      · rw [hleft, hout, List.append_nil]
        exact htrace
      · simp only [Generation.left, hpc] at htrace
        simp only [Generation.left, hpc', hout]
        exact htrace.snoc _
  · intro i hi
    rw [eventsOf_append]
    have hle := List.getElem?_eq_none_iff.mp hi
    have hnone : s.gens[i]? = none := by
      refine List.getElem?_eq_none_iff.mpr ?_
      rcases step_grows h with hlen | ⟨_, req, hgens⟩
      · omega
      · rw [hgens, List.length_append] at hle
        omega
    rw [hJ.2 i hnone, eventsOf_of_none (step_shows hI h) hnone, List.append_nil]

/-- **Each generation runs `run`** on the request it was created for. -/
theorem exec_tracesRuns {store : Manifest} {as : List Label}
    (h : exec (step o) (.start store) as = some (s', out)) : TracesRuns o out s' := by
  have hrule : OneLive s' ∧ TracesRuns o ([] ++ out) s' := by
    refine exec_history (J := fun past s => OneLive s ∧ TracesRuns o past s) ?_
      ⟨oneLive_start store, ?_⟩ h
    · rintro past s a s' out ⟨hI, hJ⟩ hstep
      exact ⟨step_oneLive s a s' out hI hstep, step_tracesRuns hI hJ hstep⟩
    · exact ⟨fun i g hg => by simp [System.start] at hg, fun _ _ => rfl⟩
  exact hrule.2

end Steps

end AetherForge
