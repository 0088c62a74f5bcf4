import AetherForge.Backend.ConnectionProtocol

/-!
# Errors that end a connection

An error with `recoverable` false is the reader's last message, but a generation in flight is
cancelled only after it, by the deferred `Shutdown`.

* `final_error_is_last` — nothing follows the error, when every generation had finished or was
  cancelled and settled at that moment;
* `plan_after_final_error` — a run in which a plan follows it.
-/

namespace AetherForge

open Go GoJson Interaction Transition

/-! ### Messages of a connection -/

/-- The message that an occurrence hands over, by the reader or by a generation. -/
def Occurrence.message? : Occurrence → Option Message
  | .replied e => some (.error e)
  | .orchestrator a => a.message?.map Prod.snd
  | _ => none

/-- The occurrence hands over an error with `recoverable` false. -/
def Occurrence.IsFinal (x : Occurrence) : Prop :=
  ∃ e, x.message? = some (.error e) ∧ e.recoverable = false

/-- The turn lets an LLM call return a deadline error. -/
def Connection.TimesOut (c : Connection) (turn : Turn) : Prop :=
  ∃ s a i, c.orch = some s ∧ turn = .orchestrator a ∧ AetherForge.TimesOut s a i

/-- The generation's run has returned, or it is cancelled and what is left of it has neither
passed a test with the Send still to come nor a deadline error to report. -/
def Generation.Over (o : Orchestrator) (g : Generation) : Prop :=
  g.left o = .ret () ∨
    (g.cancelled = true ∧ ¬InSendWindow (g.left o) ∧ ¬ReportingTimeout (g.left o))

/-- No generation of the connection has anything left to send. -/
def Connection.Quiet (o : Orchestrator) (c : Connection) : Prop :=
  ∀ s, c.orch = some s → ∀ (i : ℕ) (g : Generation), s.gens[i]? = some g → g.Over o

section Runs

variable {explain : Option String → Json → String} {o : Orchestrator}
variable {c c' : Connection} {s s' : System} {turn : Turn} {out : List Occurrence}

/-! ### Generations send no final error -/

theorem sentMessages_recoverable {req : Generate} {evs : List (Event Eff Resp)} {p : Run Unit}
    (h : Trace (run o req) evs p) {e : Error} (he : .error e ∈ sentMessages evs) :
    e.recoverable = true := by
  obtain ⟨ms, hms, hpre⟩ := (run_concludes o req).within evs p (allowed_of_true evs) h
  have hin : .error e ∈ ms := hpre.subset he
  rcases hms with ⟨code, text, rfl⟩ | ⟨_, recipe, seed, entries, elapsed, llmElapsed, _, _, _, _, _,
    rfl⟩
  · cases List.mem_singleton.mp hin
    rfl
  · simp [streamMessages, chunkMessages] at hin

theorem exec_recoverable {store : Manifest} {as : List Label} {acts : List Action}
    (h : exec (step o) (.start store) as = some (s, acts)) {i : ℕ} {ev : Event Eff Resp} {e : Error}
    (hev : .effect i ev ∈ acts) (he : handed ev = some (.error e)) : e.recoverable = true := by
  obtain ⟨htraces, hnone⟩ := exec_tracesRuns h
  have hin : ev ∈ eventsOf i acts :=
    List.mem_filterMap.mpr ⟨_, hev, by simp [Action.eventOf]⟩
  cases hg : s.gens[i]? with
  | none =>
    rw [hnone i hg] at hin
    cases hin
  | some g =>
    exact sentMessages_recoverable (htraces i g hg).2 (List.mem_filterMap.mpr ⟨ev, hin, he⟩)

/-! ### The reader between calls -/

/-- An error to be reported is recoverable, and outside its methods the orchestrator has no
caller. -/
structure ReaderRests (c : Connection) : Prop where
  report : ∀ e, c.reader = .report e → e.recoverable = true
  idle : ∀ s, c.orch = some s → c.reader ≠ .calling → c.reader ≠ .shuttingDown → s.caller = .idle

theorem step_caller_idle {a : Label} {acts : List Action} (hidle : s.caller = .idle)
    (ha : ∀ call, a ≠ .call call) (h : step o s a = some (s', acts)) : s'.caller = .idle := by
  cases a with
  | call call => exact absurd rfl (ha call)
  | caller =>
    simp only [step, stepCaller, hidle] at h
    cases h
  | goroutine i ans =>
    simp only [step] at h
    split at h
    · cases h
    · rw [(stepGoroutine_frame h).2.1, hidle]
  | parentCancel =>
    cases h
    exact hidle

theorem enter_reader {call : Call} {r : Reader} (h : c.enter o call r = some (c', out)) :
    c'.reader = r := by
  obtain ⟨_, _, _, _, _, rfl, _⟩ := enter_some h
  rfl

/-- What the reader is about to do after a step. -/
theorem step_readerRests (hR : ReaderRests c)
    (h : stepConnection explain o c turn = some (c', out)) : ReaderRests c' := by
  cases turn with
  | orchestrator a =>
    obtain ⟨s, s', acts, hs, hstep, rfl, _⟩ := stepConnection_orchestrator h
    refine ⟨hR.report, ?_⟩
    rintro _ ⟨⟩ hcalling hshutting
    refine step_caller_idle (hR.idle s hs hcalling hshutting) ?_ hstep
    rintro call rfl
    cases h
  | readFails =>
    simp only [stepConnection] at h
    split at h
    · rename_i hr
      cases h
      exact ⟨by simp, fun s hs _ _ => hR.idle s hs (by simp [hr]) (by simp [hr])⟩
    · rename_i hr
      cases h
      exact ⟨by simp, fun s hs _ _ => hR.idle s hs (by simp [hr]) (by simp [hr])⟩
    · cases h
  | receive f =>
    simp only [stepConnection, stepReceive] at h
    split at h
    · split at h
      · rename_i hr _ e _
        cases h
        exact ⟨by simp, fun s hs _ _ => hR.idle s hs (by simp [hr]) (by simp [hr])⟩
      · cases h
        refine ⟨by simp, ?_⟩
        rintro _ ⟨⟩ _ _
        rfl
    · rename_i hr
      rcases dispatch_cases explain f with ⟨_, text, hd⟩ | ⟨_, text, hd⟩ | ⟨_, m, _, hd⟩ |
        ⟨_, m, _, hd⟩
      · rw [hd] at h
        cases h
        exact ⟨by simp, fun s hs _ _ => hR.idle s hs (by simp [hr]) (by simp [hr])⟩
      · rw [hd] at h
        cases h
        refine ⟨?_, fun s hs _ _ => hR.idle s hs (by simp [hr]) (by simp [hr])⟩
        rintro _ ⟨⟩
        rfl
      all_goals
        rw [hd] at h
        obtain ⟨⟨c₁, out₁⟩, henter, heq⟩ := Option.map_eq_some_iff.mp h
        cases heq
        have hreader := enter_reader henter
        refine ⟨?_, fun s _ hcalling _ => absurd hreader hcalling⟩
        intro e he
        rw [hreader] at he
        cases he
    · cases h
  | reader =>
    have hkeep : ∀ r : Reader, (∀ e, r ≠ .report e) → c.reader ≠ .calling →
        c.reader ≠ .shuttingDown → ReaderRests { c with reader := r } :=
      fun r hr hcalling hshutting =>
        ⟨fun e he => absurd he (hr e), fun s hs _ _ => hR.idle s hs hcalling hshutting⟩
    have hreturn : ∀ r : Reader, (∀ e, r ≠ .report e) → c.returned r = some (c', out) →
        ReaderRests c' := by
      intro r hr hret
      unfold Connection.returned at hret
      split at hret
      · cases hret
      · rename_i s hs
        split at hret
        · rename_i hidle
          cases hret
          refine ⟨fun e he => absurd he (hr e), ?_⟩
          intro s' hs' _ _
          rw [hs] at hs'
          cases hs'
          exact hidle
        · cases hret
    simp only [stepConnection, stepReader] at h
    cases hr : c.reader with
    | refuse e =>
      rw [hr] at h
      cases h
      exact hkeep .closing (by simp) (by simp [hr]) (by simp [hr])
    | report e =>
      rw [hr] at h
      cases h
      exact hkeep .loop (by simp) (by simp [hr]) (by simp [hr])
    | fatal e =>
      rw [hr] at h
      cases h
      exact hkeep .leaving (by simp) (by simp [hr]) (by simp [hr])
    | closing =>
      rw [hr] at h
      cases h
      exact hkeep .closed (by simp) (by simp [hr]) (by simp [hr])
    | calling =>
      rw [hr] at h
      exact hreturn .loop (by simp) h
    | shuttingDown =>
      rw [hr] at h
      exact hreturn .closing (by simp) h
    | leaving =>
      rw [hr] at h
      have hreader := enter_reader h
      refine ⟨?_, fun s _ _ hshutting => absurd hreader hshutting⟩
      intro e he
      rw [hreader] at he
      cases he
    | _ =>
      rw [hr] at h
      cases h

theorem exec_readerRests {turns : List Turn} {os : List Occurrence}
    (h : exec (stepConnection explain o) .start turns = some (c, os)) : ReaderRests c := by
  refine exec_invariant (I := ReaderRests) (fun _ _ _ _ hR hstep => step_readerRests hR hstep) ?_ h
  constructor
  · rintro _ ⟨⟩
  · rintro _ ⟨⟩

/-! ### Nothing left to send -/

/-- The caller is idle, or in `Shutdown`. -/
def Caller.Rests (c : Caller) : Prop := c = .idle ∨ ∃ pc, c = .retire none pc

/-- No generation will be created, and none has anything left to send. -/
structure Drained (o : Orchestrator) (s : System) : Prop where
  ready : 0 < s.store.len
  one : OneLive s
  rests : s.caller.Rests
  spent : ∀ (i : ℕ) (g : Generation), s.gens[i]? = some g →
    g.left o = .ret () ∨ (g.cancelled = true ∧ Mute (g.left o))

theorem stepRetire_rests {pc : RetirePc} {acts : List Action}
    (h : stepRetire s none pc = some (s', acts)) :
    s'.caller.Rests ∧ s'.gens.length = s.gens.length := by
  cases pc with
  | lock =>
    simp only [stepRetire] at h
    split at h <;> cases h
    exact ⟨.inr ⟨_, rfl⟩, rfl⟩
  | unlock old =>
    cases old with
    | none =>
      cases h
      exact ⟨.inl rfl, rfl⟩
    | some old =>
      cases h
      exact ⟨.inr ⟨_, rfl⟩, rfl⟩
  | cancel old =>
    cases h
    exact ⟨.inr ⟨_, rfl⟩, s.cancelContext_length old⟩
  | wait old =>
    simp only [stepRetire] at h
    split at h
    · cases h
      exact ⟨.inl rfl, rfl⟩
    · cases h
  | _ =>
    cases h
    exact ⟨.inr ⟨_, rfl⟩, rfl⟩

theorem step_rests {a : Label} {acts : List Action} (hc : s.caller.Rests)
    (ha : ∀ call, a = .call call → call = .shutdown) (h : step o s a = some (s', acts)) :
    s'.caller.Rests ∧ s'.gens.length = s.gens.length := by
  cases a with
  | call call =>
    obtain rfl := ha call rfl
    simp only [step] at h
    split at h
    · cases h
      exact ⟨.inr ⟨_, rfl⟩, rfl⟩
    · cases h
  | caller =>
    rcases hc with hidle | ⟨pc, hretire⟩
    · simp only [step, stepCaller, hidle] at h
      cases h
    · simp only [step, stepCaller, hretire] at h
      exact stepRetire_rests h
  | goroutine i ans =>
    simp only [step] at h
    split at h
    · cases h
    · obtain ⟨_, hcaller, hlen, _⟩ := stepGoroutine_frame h
      exact ⟨hcaller ▸ hc, hlen⟩
  | parentCancel =>
    cases h
    exact ⟨hc, List.length_map _⟩

/-- **Step lemma.**  A drained orchestrator hands nothing over, and stays drained. -/
theorem step_drained {a : Label} {acts : List Action} (hD : Drained o s)
    (ha : ∀ call, a = .call call → call = .shutdown)
    (ht : ∀ i, ¬AetherForge.TimesOut s a i) (h : step o s a = some (s', acts)) :
    Drained o s' ∧ sent acts = [] := by
  obtain ⟨hrests, hlen⟩ := step_rests hD.rests ha h
  constructor
  · refine ⟨step_store h ▸ hD.ready, step_oneLive s a s' acts hD.one h, hrests, ?_⟩
    intro i g' hg'
    have hlt : i < s.gens.length := hlen ▸ (List.getElem?_eq_some_iff.mp hg').1
    have hg : s.gens[i]? = some s.gens[i] := List.getElem?_eq_getElem hlt
    obtain ⟨g'', hg'', hev⟩ := step_evolves hD.one h hg
    rw [hg'] at hg''
    cases hg''
    rcases hD.spent i _ hg with hret | ⟨hcancelled, hmute⟩
    · rcases hev.moves with ⟨hleft, _⟩ | ⟨_, _, _, _, hpc, _⟩
      · exact .inl (hleft.trans hret)
      · rw [Generation.left, hpc] at hret
        cases hret
    · obtain ⟨⟨g'', hg'', hc, hm⟩, _⟩ :=
        step_hushed hD.ready hD.one ⟨_, hg, hcancelled, hmute⟩ (ht i) h
      rw [hg'] at hg''
      cases hg''
      exact .inr ⟨hc, hm⟩
  · cases step_shows hD.one h with
    | effect i g ans e k ha' hg hpc hs =>
      cases e with
      | send msg =>
        -- a spent run is not at a Send
        rcases hD.spent i g hg with hret | ⟨_, hmute⟩
        · rw [Generation.left, hpc] at hret
          cases hret
        · refine absurd ?_ hmute.here
          exact ⟨msg, k, by rw [Generation.left, hpc]⟩
      | _ => rfl
    | _ => rfl

/-- Whether the reader has left the loop, with its last message behind it. -/
def Reader.gone : Reader → Bool
  | .leaving => true
  | .shuttingDown => true
  | .closing => true
  | .closed => true
  | _ => false

/-- The connection hands nothing over any more. -/
structure Ended (o : Orchestrator) (c : Connection) : Prop where
  gone : c.reader.gone = true
  drained : ∀ s, c.orch = some s → Drained o s

theorem message?_of_sent {acts : List Action} (h : sent acts = []) {x : Occurrence}
    (hx : x ∈ acts.map .orchestrator) : x.message? = none := by
  obtain ⟨a, ha, rfl⟩ := List.mem_map.mp hx
  simp only [Occurrence.message?]
  cases hm : a.message? with
  | none => rfl
  | some p =>
    have hin : p ∈ sent acts := List.mem_filterMap.mpr ⟨a, ha, hm⟩
    rw [h] at hin
    cases hin

theorem step_ended (hE : Ended o c) (ht : ¬c.TimesOut turn)
    (h : stepConnection explain o c turn = some (c', out)) :
    Ended o c' ∧ ∀ x ∈ out, x.message? = none := by
  have hgone := hE.gone
  cases turn with
  | orchestrator a =>
    obtain ⟨s, s', acts, hs, hstep, rfl, rfl⟩ := stepConnection_orchestrator h
    obtain ⟨hD, hsent⟩ := step_drained (hE.drained s hs)
      (fun call hcall => by rw [hcall] at h; cases h)
      (fun i hi => ht ⟨s, a, i, hs, rfl, hi⟩) hstep
    refine ⟨⟨hgone, ?_⟩, fun x hx => message?_of_sent hsent hx⟩
    rintro _ ⟨⟩
    exact hD
  | readFails =>
    cases hr : c.reader with
    | hello => simp [Reader.gone, hr] at hgone
    | loop => simp [Reader.gone, hr] at hgone
    | _ => simp [stepConnection, hr] at h
  | receive f =>
    cases hr : c.reader with
    | hello => simp [Reader.gone, hr] at hgone
    | loop => simp [Reader.gone, hr] at hgone
    | _ => simp [stepConnection, stepReceive, hr] at h
  | reader =>
    simp only [stepConnection, stepReader] at h
    cases hr : c.reader with
    | leaving =>
      rw [hr] at h
      obtain ⟨s, s', acts, hs, hstep, rfl, rfl⟩ := enter_some h
      have hnot : ∀ i, ¬TimesOut s (.call .shutdown) i := by
        rintro i ⟨_, _, _, hcall, _⟩
        cases hcall
      obtain ⟨hD, hsent⟩ := step_drained (hE.drained s hs)
        (fun call hcall => (Label.call.inj hcall).symm) hnot hstep
      refine ⟨⟨rfl, ?_⟩, fun x hx => message?_of_sent hsent hx⟩
      rintro _ ⟨⟩
      exact hD
    | shuttingDown =>
      rw [hr] at h
      obtain ⟨rfl, rfl⟩ := returned_some h
      exact ⟨⟨rfl, hE.drained⟩, by simp⟩
    | closing =>
      rw [hr] at h
      cases h
      refine ⟨⟨rfl, hE.drained⟩, ?_⟩
      intro x hx
      cases List.mem_singleton.mp hx
      rfl
    | closed =>
      rw [hr] at h
      cases h
    | _ => simp [Reader.gone, hr] at hgone

/-- **Run lemma.** -/
theorem exec_ended {turns : List Turn} {d : Connection} {os : List Occurrence} (hE : Ended o c)
    (ht : Along (stepConnection explain o) (fun c turn => ¬c.TimesOut turn) c turns)
    (h : exec (stepConnection explain o) c turns = some (d, os)) :
    ∀ x ∈ os, x.message? = none :=
  (exec_invariant_along (I := Ended o)
    (fun _ _ _ _ hE ht hstep => step_ended hE ht hstep) hE ht h).2

/-! ### The final error -/

theorem step_call_silent {call : Call} {acts : List Action}
    (h : step o s (.call call) = some (s', acts)) : acts = [] := by
  simp only [step] at h
  split at h
  · cases h
    rfl
  · cases h

theorem enter_silent {call : Call} {r : Reader} (h : c.enter o call r = some (c', out)) :
    out = [] := by
  obtain ⟨_, _, acts, _, hstep, _, rfl⟩ := enter_some h
  rw [step_call_silent hstep]
  rfl

theorem receive_silent {f : Frame} (h : stepConnection explain o c (.receive f) = some (c', out)) :
    out = [.received f] := by
  simp only [stepConnection, stepReceive] at h
  split at h
  · split at h <;> cases h <;> rfl
  · split at h
    · cases h
      rfl
    · cases h
      rfl
    · obtain ⟨⟨c₁, out₁⟩, henter, heq⟩ := Option.map_eq_some_iff.mp h
      cases heq
      obtain rfl := enter_silent henter
      rfl
  · cases h

/-- **Who sends a final error**: the reader, as its last message. -/
theorem final_step {turns : List Turn} {os : List Occurrence}
    (h : exec (stepConnection explain o) .start turns = some (c, os))
    (hstep : stepConnection explain o c turn = some (c', out)) (hfinal : ∃ x ∈ out, x.IsFinal) :
    ∃ e, (c.reader = .refuse e ∨ c.reader = .fatal e) ∧ out = [.replied e] ∧
      c'.reader.gone = true ∧ c'.orch = c.orch := by
  obtain ⟨x, hx, e, hmsg, hfinal⟩ := hfinal
  have hR := exec_readerRests h
  cases turn with
  | orchestrator a =>
    obtain ⟨s, s', acts, hs, hwork, _, rfl⟩ := stepConnection_orchestrator hstep
    obtain ⟨act, hact, rfl⟩ := List.mem_map.mp hx
    obtain ⟨⟨i, m⟩, hm, heq⟩ := Option.map_eq_some_iff.mp hmsg
    obtain rfl : m = .error e := heq
    have hsent : (i, .error e) ∈ sent acts := List.mem_filterMap.mpr ⟨act, hact, hm⟩
    obtain ⟨ev, hev, hhanded⟩ := mem_sent_iff.mp hsent
    have hT := exec_tells h
    cases hT with
    | served r s₁ frame rest store hS =>
      cases hs
      obtain ⟨labels, hrun⟩ := hS.run
      have hall := exec_trans hrun (exec_singleton (step o) hwork)
      have hrecoverable := exec_recoverable hall (List.mem_append_right _ hev) hhanded
      rw [hfinal] at hrecoverable
      cases hrecoverable
    | _ => cases hs
  | readFails =>
    simp only [stepConnection] at hstep
    split at hstep <;> cases hstep <;> cases hx
  | receive f =>
    rw [receive_silent hstep] at hx
    cases List.mem_singleton.mp hx
    cases hmsg
  | reader =>
    simp only [stepConnection, stepReader] at hstep
    cases hr : c.reader with
    | refuse e' =>
      rw [hr] at hstep
      cases hstep
      exact ⟨e', .inl rfl, rfl, rfl, rfl⟩
    | report e' =>
      rw [hr] at hstep
      cases hstep
      cases List.mem_singleton.mp hx
      cases hmsg
      rw [hR.report e hr] at hfinal
      cases hfinal
    | fatal e' =>
      rw [hr] at hstep
      cases hstep
      exact ⟨e', .inr rfl, rfl, rfl, rfl⟩
    | calling =>
      rw [hr] at hstep
      obtain ⟨_, rfl⟩ := returned_some hstep
      cases hx
    | shuttingDown =>
      rw [hr] at hstep
      obtain ⟨_, rfl⟩ := returned_some hstep
      cases hx
    | leaving =>
      rw [hr] at hstep
      obtain rfl := enter_silent hstep
      cases hx
    | closing =>
      rw [hr] at hstep
      cases hstep
      cases List.mem_singleton.mp hx
      cases hmsg
    | _ =>
      rw [hr] at hstep
      cases hstep

/-- A quiet connection about to send a final error is drained. -/
theorem Connection.Quiet.drained {turns : List Turn} {os : List Occurrence}
    (h : exec (stepConnection explain o) .start turns = some (c, os)) (hquiet : c.Quiet o)
    {e : Error}
    (hr : c.reader = .refuse e ∨ c.reader = .fatal e) (hs : c.orch = some s) : Drained o s := by
  have hT := exec_tells h
  have hR := exec_readerRests h
  cases hT with
  | served r s₁ frame rest store hS =>
    cases hs
    obtain ⟨labels, hrun⟩ := hS.run
    obtain ⟨man, hman, rfl⟩ := hS.accepts
    have hready : 0 < man.copy.len := by
      obtain ⟨hello, _, _, hpos, rfl⟩ := hman
      exact hpos
    obtain ⟨hI, hsettle, _⟩ := exec_settled hready hrun
    refine ⟨exec_store hrun ▸ hready, hI, .inl ?_, ?_⟩
    · rcases hr with hr | hr
      · exact hR.idle s rfl (by rw [hr]; nofun) (by rw [hr]; nofun)
      · exact hR.idle s rfl (by rw [hr]; nofun) (by rw [hr]; nofun)
    · intro i g hg
      rcases hquiet s rfl i g hg with hret | ⟨hcancelled, hwindow, hreport⟩
      · exact .inl hret
      · exact .inr ⟨hcancelled,
          ((hsettle i g hg).here.resolve_left hwindow).resolve_left hreport⟩
  | _ => cases hs

end Runs

/-! ### The last message -/

/-- **A final error is the last message**, when every generation's run had returned, or was
cancelled and settled, as it was sent, and no LLM call returns a deadline error afterwards. -/
theorem final_error_is_last (explain : Option String → Json → String) (o : Orchestrator)
    (turns : List Turn) (c : Connection) (os : List Occurrence)
    (h : exec (stepConnection explain o) .start turns = some (c, os)) (turn : Turn)
    (c' : Connection) (out : List Occurrence)
    (hstep : stepConnection explain o c turn = some (c', out)) (hfinal : ∃ x ∈ out, x.IsFinal)
    (hquiet : c.Quiet o) :
    (∃ x, out = [x]) ∧ ∀ turns' d os', exec (stepConnection explain o) c' turns' = some (d, os') →
      Along (stepConnection explain o) (fun c turn => ¬c.TimesOut turn) c' turns' →
      ∀ x ∈ os', x.message? = none := by
  obtain ⟨e, hr, rfl, hgone, horch⟩ := final_step h hstep hfinal
  have hE : Ended o c' := ⟨hgone, fun s hs => hquiet.drained h hr (horch ▸ hs)⟩
  exact ⟨⟨_, rfl⟩, fun turns' d os' hexec halong => exec_ended hE halong hexec⟩

/-- The meadow request on the wire. -/
def generateFrame : Frame :=
  .ok (.obj [("protocol_version", .int 1), ("type", .str "generate"), ("generation_id", .str "g1"),
    ("prompt", .str "a meadow"), ("seed", .int 7),
    ("bounds", .obj [("min", .obj [("x", .int 0), ("y", .int 0)]),
      ("max", .obj [("x", .int 40), ("y", .int 40)])])])

/-- A frame of the next version. -/
def mismatchFrame : Frame := .ok (.obj [("protocol_version", .int 2), ("type", .str "cancel")])

/-- A generation is started, and gets so far before a frame of another version arrives. -/
def mismatchAfter (n : ℕ) : List Turn :=
  [.receive helloFrame, .receive generateFrame] ++ (callerSteps 9).map .orchestrator ++
    [.reader] ++ (goroutineSteps 0 n (recipeAnswers meadowRecipe)).map .orchestrator ++
    [.receive mismatchFrame]

/-- The reader is at the final error, and the one generation's goroutine has exited. -/
def exitedAtFatal (p : Connection × List Occurrence) : Bool :=
  match p.1.reader, p.1.orch with
  | .fatal e, some ⟨_, _, _, _, [⟨_, _, _, .exited⟩], _⟩ => !e.recoverable
  | _, _ => false

theorem final_error_is_last_exited :
    ∃ c os c' e, exec (stepConnection (fun _ _ => "") (.new sawtoothDraws)) .start
        (mismatchAfter 20) = some (c, os) ∧
      stepConnection (fun _ _ => "") (.new sawtoothDraws) c .reader = some (c', [.replied e]) ∧
      ∀ turns' d os',
        exec (stepConnection (fun _ _ => "") (.new sawtoothDraws)) c' turns' = some (d, os') →
        Along (stepConnection (fun _ _ => "") (.new sawtoothDraws))
          (fun c turn => ¬c.TimesOut turn) c' turns' →
        ∀ x ∈ os', x.message? = none := by
  have hrun : (exec (stepConnection (fun _ _ => "") (.new sawtoothDraws)) .start
      (mismatchAfter 20)).map exitedAtFatal = some true := by decide +kernel
  obtain ⟨⟨c, os⟩, hexec, hat⟩ := Option.map_eq_some_iff.mp hrun
  simp only [exitedAtFatal] at hat
  split at hat
  · rename_i e store parentDone mu cur id req cancelled caller hr hs
    have hstep : stepConnection (fun _ _ => "") (.new sawtoothDraws) c .reader =
        some ({ c with reader := .leaving }, [.replied e]) := by
      simp only [stepConnection, stepReader, hr]
    have hquiet : c.Quiet (.new sawtoothDraws) := by
      intro s hs' i g hg
      rw [hs] at hs'
      cases hs'
      cases List.mem_singleton.mp (List.mem_of_getElem? hg)
      exact .inl rfl
    have hfinal : ∃ x ∈ [Occurrence.replied e], x.IsFinal :=
      ⟨_, List.mem_singleton.mpr rfl, e, rfl, by simpa using hat⟩
    exact ⟨c, os, _, e, hexec, hstep,
      (final_error_is_last _ _ _ c os hexec .reader _ _ hstep hfinal hquiet).2⟩
  · cases hat

/-- A final error, and then a plan. -/
def planAfterFinal (p : Connection × List Occurrence) : Bool :=
  match p.2.filterMap Occurrence.message? with
  | [.error e, .plan _] => !e.recoverable
  | _ => false

/-- **A plan after a final error.** -/
theorem plan_after_final_error :
    ∃ c os e plan, exec (stepConnection (fun _ _ => "") (.new sawtoothDraws)) .start
        (mismatchAfter 5 ++ [.reader] ++
          (goroutineSteps 0 4 (recipeAnswers meadowRecipe)).map .orchestrator) = some (c, os) ∧
      os.filterMap Occurrence.message? = [.error e, .plan plan] ∧ e.recoverable = false := by
  have hrun : (exec (stepConnection (fun _ _ => "") (.new sawtoothDraws)) .start
      (mismatchAfter 5 ++ [.reader] ++
        (goroutineSteps 0 4 (recipeAnswers meadowRecipe)).map .orchestrator)).map planAfterFinal =
        some true := by decide +kernel
  obtain ⟨⟨c, os⟩, hexec, hafter⟩ := Option.map_eq_some_iff.mp hrun
  simp only [planAfterFinal] at hafter
  split at hafter
  · rename_i e plan hmessages
    exact ⟨c, os, e, plan, hexec, hmessages, by simpa using hafter⟩
  · cases hafter

end AetherForge
