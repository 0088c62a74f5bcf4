import AetherForge.Backend.Connection
import AetherForge.Backend.Cancellation

/-!
# The protocol of a connection

What every run of a connection shows, whatever frames arrive and however the orchestrator's
goroutines are scheduled.  `Tells` relates what a run has shown to the state it reached; every
step keeps it.

* `connection_protocol` — the first frame gates everything, a refusal is one error, the manifest
  never changes, and each later frame has its reply;
* `null_type_is_fatal` — a frame whose `type` is no string, answered by a fatal error.
-/

namespace AetherForge

open Go GoJson Interaction Transition

section Runs

variable {explain : Option String → Json → String} {o : Orchestrator}

/-! ### What a run shows -/

/-- After an accepted first frame: the orchestrator has run on the store, the replies answer the
later frames, and only the last of these can be of another version. -/
structure Served (explain : Option String → Json → String) (o : Orchestrator)
    (past : List Occurrence) (r : Reader) (s : System) (frame : Frame) (rest : List Frame)
    (store : Manifest) : Prop where
  accepted : handshake explain frame = .ok store
  read : frames past = frame :: rest
  run : ∃ labels, exec (step o) (.start store) labels = some (s, actions past)
  established : r.established = true
  answered : replies past ++ r.pending = rest.filterMap (reply explain)
  before : ∀ f ∈ rest.dropLast, ¬Mismatched f
  reads : r.reads = true → ∀ f ∈ rest, ¬Mismatched f

/-- What a run has shown, for each state it may have reached. -/
inductive Tells (explain : Option String → Json → String) (o : Orchestrator)
    (past : List Occurrence) : Connection → Prop
  /-- No frame has been read. -/
  | silent (r : Reader) (hr : r = .hello ∨ r = .closing ∨ r = .closed) (hframes : frames past = [])
      (hreplies : replies past = []) (hactions : actions past = []) :
      Tells explain o past ⟨r, none⟩
  /-- The first frame was refused. -/
  | refused (r : Reader) (frame : Frame) (e : Error) (hframe : handshake explain frame = .error e)
      (hr : r = .refuse e ∨ r = .closing ∨ r = .closed) (hframes : frames past = [frame])
      (hreplies : replies past ++ r.pending = [e]) (hactions : actions past = []) :
      Tells explain o past ⟨r, none⟩
  /-- The first frame was accepted. -/
  | served (r : Reader) (s : System) (frame : Frame) (rest : List Frame) (store : Manifest)
      (h : Served explain o past r s frame rest store) :
      Tells explain o past ⟨r, some s⟩

/-! ### Steps -/

variable {past : List Occurrence} {r r' : Reader} {s s' : System} {frame : Frame}
variable {rest : List Frame} {store : Manifest}

/-- The reader goes on without a reply or a frame. -/
theorem Served.advance (h : Served explain o past r s frame rest store)
    (hpending : r.pending = []) (hpending' : r'.pending = []) (he : r'.established = true)
    (hreads : r'.reads = true → r.reads = true) {out : List Occurrence} (hf : frames out = [])
    (hr : replies out = []) {as : List Label} {acts : List Action}
    (hrun : exec (step o) s as = some (s', acts)) (hacts : actions out = acts) :
    Served explain o (past ++ out) r' s' frame rest store := by
  obtain ⟨labels, hlabels⟩ := h.run
  have hreplies := h.answered
  rw [hpending] at hreplies
  refine ⟨h.accepted, ?_, ⟨labels ++ as, ?_⟩, he, ?_, h.before, fun h' => h.reads (hreads h')⟩
  · rw [frames_append, h.read, hf, List.append_nil]
  · rw [actions_append, hacts]
    exact exec_trans hlabels hrun
  · rw [replies_append, hr, hpending', List.append_nil]
    exact hreplies

/-- The reader sends what it was about to send. -/
theorem Served.send (h : Served explain o past r s frame rest store) {e : Error}
    (hpending : r.pending = [e]) (hpending' : r'.pending = []) (he : r'.established = true)
    (hreads : r'.reads = true → r.reads = true) :
    Served explain o (past ++ [.replied e]) r' s frame rest store := by
  refine ⟨h.accepted, ?_, ?_, he, ?_, h.before, fun h' => h.reads (hreads h')⟩
  · have hframes : frames [.replied e] = [] := rfl
    rw [frames_append, h.read, hframes, List.append_nil]
  · have hactions : actions [.replied e] = [] := rfl
    rw [actions_append, hactions, List.append_nil]
    exact h.run
  · rw [replies_append, hpending', List.append_nil, ← h.answered, hpending]
    rfl

/-- A step of the orchestrator by itself. -/
theorem Served.work (h : Served explain o past r s frame rest store) {as : List Label}
    {acts : List Action} (hrun : exec (step o) s as = some (s', acts)) :
    Served explain o (past ++ acts.map .orchestrator) r s' frame rest store := by
  obtain ⟨labels, hlabels⟩ := h.run
  refine ⟨h.accepted, ?_, ⟨labels ++ as, ?_⟩, h.established, ?_, h.before, h.reads⟩
  · rw [frames_append, frames_actions, List.append_nil, h.read]
  · rw [actions_append, actions_actions]
    exact exec_trans hlabels hrun
  · rw [replies_append, replies_actions, List.append_nil, h.answered]

/-- A frame is read in the loop; a reply becomes pending, or the orchestrator is called. -/
theorem Served.receive (h : Served explain o past .loop s frame rest store) {f : Frame}
    (he : r'.established = true) (hpending : r'.pending = (reply explain f).toList)
    (hreads : r'.reads = true → ¬Mismatched f) {as : List Label} {acts : List Action}
    (hrun : exec (step o) s as = some (s', acts)) :
    Served explain o (past ++ .received f :: acts.map .orchestrator) r' s' frame (rest ++ [f])
      store := by
  obtain ⟨labels, hlabels⟩ := h.run
  have hreplies := h.answered
  have hnone : ∀ g ∈ rest, ¬Mismatched g := h.reads rfl
  have hframes : frames (.received f :: acts.map .orchestrator) = [f] :=
    congrArg (f :: ·) (frames_actions acts)
  have hno : replies (.received f :: acts.map .orchestrator) = [] := replies_actions acts
  have hacts : actions (.received f :: acts.map .orchestrator) = acts := actions_actions acts
  refine ⟨h.accepted, ?_, ⟨labels ++ as, ?_⟩, he, ?_, ?_, ?_⟩
  · rw [frames_append, h.read, hframes]
    rfl
  · rw [actions_append, hacts]
    exact exec_trans hlabels hrun
  · rw [replies_append, hno, List.append_nil, List.filterMap_append, ← hreplies, hpending]
    cases hreply : reply explain f <;> simp [Reader.pending, hreply]
  · rwa [List.dropLast_concat]
  · intro hr g hg
    rcases List.mem_append.mp hg with hg | hg
    · exact hnone g hg
    · exact List.mem_singleton.mp hg ▸ hreads hr

/-- A call of a method that the reader makes. -/
theorem enter_some {c c' : Connection} {call : Call} {out : List Occurrence}
    (h : c.enter o call r = some (c', out)) :
    ∃ s s' acts, c.orch = some s ∧ step o s (.call call) = some (s', acts) ∧
      c' = ⟨r, some s'⟩ ∧ out = acts.map .orchestrator := by
  unfold Connection.enter at h
  split at h
  · cases h
  · rename_i s hs
    obtain ⟨⟨s', acts⟩, hstep, heq⟩ := Option.map_eq_some_iff.mp h
    cases heq
    exact ⟨s, s', acts, hs, hstep, rfl, rfl⟩

theorem returned_some {c c' : Connection} {out : List Occurrence}
    (h : c.returned r = some (c', out)) :
    c' = { c with reader := r } ∧ out = [] := by
  unfold Connection.returned at h
  split at h
  · cases h
  · split at h
    · cases h
      exact ⟨rfl, rfl⟩
    · cases h

/-- A turn of the orchestrator. -/
theorem stepConnection_orchestrator {c c' : Connection} {a : Label} {out : List Occurrence}
    (h : stepConnection explain o c (.orchestrator a) = some (c', out)) :
    ∃ s s' acts, c.orch = some s ∧ step o s a = some (s', acts) ∧
      c' = ⟨c.reader, some s'⟩ ∧ out = acts.map .orchestrator := by
  cases hs : c.orch with
  | none => cases a <;> simp [stepConnection, hs] at h
  | some s =>
    have hwork : (step o s a).map (fun p =>
        (({ c with orch := some p.1 } : Connection), p.2.map Occurrence.orchestrator)) =
          some (c', out) := by
      cases a with
      | call _ => cases h
      | _ => simpa only [stepConnection, hs] using h
    obtain ⟨⟨s', acts⟩, hstep, heq⟩ := Option.map_eq_some_iff.mp hwork
    cases heq
    exact ⟨s, s', acts, rfl, hstep, rfl, rfl⟩

/-- A step of a connection without an orchestrator. -/
theorem step_tells_none {c' : Connection} {turn : Turn} {out : List Occurrence}
    (hT : Tells explain o past ⟨r, none⟩)
    (h : stepConnection explain o ⟨r, none⟩ turn = some (c', out)) :
    Tells explain o (past ++ out) c' := by
  cases turn with
  | orchestrator a =>
    obtain ⟨s, _, _, hs, _⟩ := stepConnection_orchestrator h
    cases hs
  | readFails =>
    cases hT with
    | silent _ hr hframes hreplies hactions =>
      rcases hr with rfl | rfl | rfl <;> cases h
      refine .silent .closing (.inr (.inl rfl)) ?_ ?_ ?_
      · rw [List.append_nil, hframes]
      · rw [List.append_nil, hreplies]
      · rw [List.append_nil, hactions]
    | refused _ frame e hframe hr hframes hreplies hactions =>
      rcases hr with rfl | rfl | rfl <;> cases h
  | receive f =>
    cases hT with
    | refused _ frame e hframe hr hframes hreplies hactions =>
      rcases hr with rfl | rfl | rfl <;> cases h
    | silent _ hr hframes hreplies hactions =>
      rcases hr with rfl | rfl | rfl
      · simp only [stepConnection, stepReceive] at h
        split at h
        · rename_i e hframe
          cases h
          refine .refused (.refuse e) f e hframe (.inl rfl) ?_ ?_ ?_
          · rw [frames_append, hframes]
            rfl
          · rw [replies_append, hreplies]
            rfl
          · rw [actions_append, hactions]
            rfl
        · rename_i store hframe
          cases h
          refine .served .loop _ f [] store ⟨hframe, ?_, ⟨[], ?_⟩, rfl, ?_, ?_, ?_⟩
          · rw [frames_append, hframes]
            rfl
          · rw [actions_append, hactions]
            rfl
          · rw [replies_append, hreplies]
            rfl
          · simp
          · simp
      · cases h
      · cases h
  | reader =>
    cases hT with
    | silent _ hr hframes hreplies hactions =>
      rcases hr with rfl | rfl | rfl
      · cases h
      · cases h
        refine .silent .closed (.inr (.inr rfl)) ?_ ?_ ?_
        · rw [frames_append, hframes]
          rfl
        · rw [replies_append, hreplies]
          rfl
        · rw [actions_append, hactions]
          rfl
      · cases h
    | refused _ frame e hframe hr hframes hreplies hactions =>
      rcases hr with rfl | rfl | rfl
      · cases h
        refine .refused .closing frame e hframe (.inr (.inl rfl)) ?_ ?_ ?_
        · rw [frames_append, hframes]
          rfl
        · rw [replies_append]
          simpa [Reader.pending, replies, Occurrence.reply?] using hreplies
        · rw [actions_append, hactions]
          rfl
      · cases h
        refine .refused .closed frame e hframe (.inr (.inr rfl)) ?_ ?_ ?_
        · rw [frames_append, hframes]
          rfl
        · have hno : replies [.closed] = [] := rfl
          rw [replies_append, hno, List.append_nil]
          exact hreplies
        · rw [actions_append, hactions]
          rfl
      · cases h

/-- A step of an established connection. -/
theorem step_tells_served {c' : Connection} {turn : Turn} {out : List Occurrence}
    (hS : Served explain o past r s frame rest store)
    (h : stepConnection explain o ⟨r, some s⟩ turn = some (c', out)) :
    Tells explain o (past ++ out) c' := by
  have hidle : exec (step o) s [] = some (s, []) := rfl
  cases turn with
  | orchestrator a =>
    obtain ⟨s₁, s', acts, hs, hstep, rfl, rfl⟩ := stepConnection_orchestrator h
    cases hs
    exact .served r s' frame rest store (hS.work (exec_singleton (step o) hstep))
  | readFails =>
    cases r with
    | loop =>
      cases h
      exact .served .leaving s frame rest store
        (hS.advance rfl rfl rfl (by simp [Reader.reads]) rfl rfl hidle rfl)
    | hello => cases hS.established
    | _ => cases h
  | receive f =>
    cases r with
    | hello => cases hS.established
    | loop =>
      simp only [stepConnection, stepReceive] at h
      rcases dispatch_cases explain f with ⟨hf, text, hd⟩ | ⟨hf, text, hd⟩ | ⟨hf, m, _, hd⟩ |
        ⟨hf, m, _, hd⟩
      · rw [hd] at h
        cases h
        refine .served (.fatal _) s frame (rest ++ [f]) store
          (hS.receive rfl ?_ (by simp [Reader.reads]) hidle)
        simp only [reply, hd]
        rfl
      · rw [hd] at h
        cases h
        refine .served (.report _) s frame (rest ++ [f]) store
          (hS.receive rfl ?_ (fun _ => hf) hidle)
        simp only [reply, hd]
        rfl
      all_goals
        rw [hd] at h
        obtain ⟨⟨c₁, out₁⟩, henter, heq⟩ := Option.map_eq_some_iff.mp h
        cases heq
        obtain ⟨s₁, s', acts, hs, hstep, rfl, rfl⟩ := enter_some henter
        cases hs
        refine .served .calling s' frame (rest ++ [f]) store
          (hS.receive rfl ?_ (fun _ => hf) (exec_singleton (step o) hstep))
        simp only [reply, hd]
        rfl
    | _ => cases h
  | reader =>
    cases r with
    | hello => cases h
    | refuse e => cases hS.established
    | loop => cases h
    | report e =>
      cases h
      exact .served .loop s frame rest store (hS.send rfl rfl rfl fun _ => rfl)
    | fatal e =>
      cases h
      exact .served .leaving s frame rest store (hS.send rfl rfl rfl (by simp [Reader.reads]))
    | calling =>
      have hreturn : Connection.returned ⟨.calling, some s⟩ .loop = some (c', out) := h
      obtain ⟨rfl, rfl⟩ := returned_some hreturn
      exact .served .loop s frame rest store
        (hS.advance rfl rfl rfl (fun _ => rfl) rfl rfl hidle rfl)
    | leaving =>
      have henter : Connection.enter o ⟨.leaving, some s⟩ .shutdown .shuttingDown =
        some (c', out) := h
      obtain ⟨s₁, s', acts, hs, hstep, rfl, rfl⟩ := enter_some henter
      cases hs
      exact .served .shuttingDown s' frame rest store
        (hS.advance rfl rfl rfl (by simp [Reader.reads]) (frames_actions acts)
          (replies_actions acts) (exec_singleton (step o) hstep) (actions_actions acts))
    | shuttingDown =>
      have hreturn : Connection.returned ⟨.shuttingDown, some s⟩ .closing = some (c', out) := h
      obtain ⟨rfl, rfl⟩ := returned_some hreturn
      exact .served .closing s frame rest store
        (hS.advance rfl rfl rfl (by simp [Reader.reads]) rfl rfl hidle rfl)
    | closing =>
      cases h
      exact .served .closed s frame rest store
        (hS.advance rfl rfl rfl (by simp [Reader.reads]) rfl rfl hidle rfl)
    | closed => cases h

/-- **Run lemma.** -/
theorem exec_tells {turns : List Turn} {c : Connection} {os : List Occurrence}
    (h : exec (stepConnection explain o) .start turns = some (c, os)) :
    Tells explain o os c := by
  have hrule : Tells explain o ([] ++ os) c := by
    refine exec_history (J := Tells explain o) ?_ (.silent .hello (.inl rfl) rfl rfl rfl) h
    intro past c turn c' out hT hstep
    cases hT with
    | silent r hr hframes hreplies hactions =>
      exact step_tells_none (.silent r hr hframes hreplies hactions) hstep
    | refused r frame e hframe hr hframes hreplies hactions =>
      exact step_tells_none (.refused r frame e hframe hr hframes hreplies hactions) hstep
    | served r s frame rest store hS => exact step_tells_served hS hstep
  exact hrule

/-! ### Generations on a store -/

/-- The store answers for itself. -/
def StoreEvent (store : Manifest) : Event Eff Resp → Prop
  | ⟨.storeReady, ready⟩ => ready = decide (0 < store.len)
  | ⟨.storeSnapshot, man⟩ => man = store.copy
  | _ => True

/-- The events of a generation on a manifest: the store is ready, the snapshot is the manifest,
and all else is `runWithManifest` on it. -/
inductive RunsOn (o : Orchestrator) (man : Manifest) (req : Generate) :
    List (Event Eff Resp) → Prop
  | opening (start : ℤ) (evs : List (Event Eff Resp))
      (h : evs <+: [⟨.now, start⟩, ⟨.storeReady, true⟩]) : RunsOn o man req evs
  | pipeline (start : ℤ) (evs : List (Event Eff Resp)) (p : Run Unit)
      (h : Trace (runWithManifest o req start man) evs p) :
      RunsOn o man req
        (⟨.now, start⟩ :: ⟨.storeReady, true⟩ :: ⟨.storeSnapshot, man⟩ :: evs)

theorem runsOn_of_trace {req : Generate} {evs : List (Event Eff Resp)} {p : Run Unit}
    (hready : 0 < store.len) (h : Trace (run o req) evs p)
    (hstore : ∀ ev ∈ evs, StoreEvent store ev) : RunsOn o store.copy req evs := by
  rw [run_eq] at h
  rcases trace_call_iff.mp h with ⟨rfl, _⟩ | ⟨start, evs₁, rfl, h₁⟩
  · exact .opening 0 [] List.nil_prefix
  rcases trace_call_iff.mp h₁ with ⟨rfl, _⟩ | ⟨ready, evs₂, rfl, h₂⟩
  · exact .opening start _ ⟨[⟨.storeReady, true⟩], rfl⟩
  obtain rfl : ready = true := by
    have hanswer : ready = decide (0 < store.len) :=
      hstore ⟨.storeReady, ready⟩ (List.mem_cons_of_mem _ List.mem_cons_self)
    rw [hanswer, decide_eq_true_eq]
    exact hready
  rw [if_pos rfl] at h₂
  rcases trace_call_iff.mp h₂ with ⟨rfl, _⟩ | ⟨man, evs₃, rfl, h₃⟩
  · exact .opening start _ ⟨[], rfl⟩
  obtain rfl : man = store.copy :=
    hstore ⟨.storeSnapshot, man⟩
      (List.mem_cons_of_mem _ (List.mem_cons_of_mem _ List.mem_cons_self))
  exact .pipeline start evs₃ p h₃

theorem exec_storeEvents {as : List Label} {acts : List Action}
    (h : exec (step o) (.start store) as = some (s, acts)) {i : ℕ} {ev : Event Eff Resp}
    (hev : .effect i ev ∈ acts) : StoreEvent store ev := by
  have hrule := exec_outputs (I := fun m => m.store = store ∧ OneLive m)
    (Q := fun x => ∀ i ev, x = .effect i ev → StoreEvent store ev) ?_
    ⟨rfl, oneLive_start store⟩ h
  · exact hrule.2 _ hev i ev rfl
  · rintro m a m' out ⟨hstore, hI⟩ hstep
    refine ⟨⟨(step_store hstep).trans hstore, step_oneLive m a m' out hI hstep⟩, ?_⟩
    rintro x hx i ev rfl
    cases step_shows hI hstep with
    | effect j g ans e k ha hg hpc hs =>
      cases List.mem_singleton.mp hx
      rw [← hstore]
      cases e <;> trivial
    | _ => simp at hx

theorem mem_eventsOf {acts : List Action} {i : ℕ} {ev : Event Eff Resp}
    (h : ev ∈ eventsOf i acts) : .effect i ev ∈ acts := by
  obtain ⟨x, hx, hev⟩ := List.mem_filterMap.mp h
  unfold Action.eventOf at hev
  split at hev
  · split at hev
    · rename_i hi
      cases hev
      exact hi ▸ hx
    · cases hev
  · cases hev

/-- **Every generation runs on the store's manifest.** -/
theorem exec_runsOn (hready : 0 < store.len) {as : List Label} {acts : List Action}
    (h : exec (step o) (.start store) as = some (s, acts)) (i : ℕ) :
    eventsOf i acts = [] ∨
      ∃ g, s.gens[i]? = some g ∧ RunsOn o store.copy g.req (eventsOf i acts) := by
  obtain ⟨htraces, hnone⟩ := exec_tracesRuns h
  cases hg : s.gens[i]? with
  | none => exact .inl (hnone i hg)
  | some g =>
    refine .inr ⟨g, rfl, runsOn_of_trace hready (htraces i g hg).2 ?_⟩
    intro ev hev
    exact exec_storeEvents h (mem_eventsOf hev)

end Runs

/-! ### The protocol -/

/-- What every run of a connection keeps to, by what it showed and where it got. -/
structure KeepsProtocol (explain : Option String → Json → String) (o : Orchestrator)
    (os : List Occurrence) (c : Connection) : Prop where
  /-- No generation does anything unless the first frame was a hello with a manifest. -/
  gated : ∀ i ev, .orchestrator (.effect i ev) ∈ os →
    ∃ frame rest man, frames os = frame :: rest ∧ Accepts explain frame man
  /-- Any other first frame is the last, and is answered by one error that is final. -/
  refused : ∀ frame rest, frames os = frame :: rest → (¬∃ man, Accepts explain frame man) →
    rest = [] ∧ actions os = [] ∧
      ∃ e, e.recoverable = false ∧ e.generationId = "" ∧ replies os ++ c.reader.pending = [e]
  /-- Every generation runs on the manifest of that hello, which the store keeps. -/
  manifest : ∀ frame rest man, frames os = frame :: rest → Accepts explain frame man →
    ∃ s, c.orch = some s ∧ s.store = man.copy ∧
      ∀ i, eventsOf i (actions os) = [] ∨
        ∃ g, s.gens[i]? = some g ∧ RunsOn o man.copy g.req (eventsOf i (actions os))
  /-- Each later frame gets its reply, and a frame of another version is the last. -/
  answered : ∀ frame rest man, frames os = frame :: rest → Accepts explain frame man →
    replies os ++ c.reader.pending = rest.filterMap (reply explain) ∧
      (∀ f ∈ rest.dropLast, ¬Mismatched f) ∧
      (c.reader.reads = true → ∀ f ∈ rest, ¬Mismatched f)

/-- The reply to a frame after the handshake: a final error for another version, none for a
request, and a recoverable error for anything else. -/
structure RepliesTo (explain : Option String → Json → String) (f : Frame) : Prop where
  mismatched : Mismatched f → ∃ text,
    reply explain f = some (connectionError CodeProtocolVersionMismatch text false)
  other : ¬Mismatched f →
    (reply explain f = none ∧ ((∃ m, decode explain f = .ok (.generate m)) ∨
      ∃ m, decode explain f = .ok (.cancel m))) ∨
    ∃ text, reply explain f = some (connectionError CodeInternal text true)

theorem repliesTo (explain : Option String → Json → String) (f : Frame) : RepliesTo explain f := by
  rcases dispatch_cases explain f with ⟨hf, text, hd⟩ | ⟨hf, text, hd⟩ | ⟨hf, m, hm, hd⟩ |
    ⟨hf, m, hm, hd⟩
  · exact ⟨fun _ => ⟨text, by simp only [reply, hd]⟩, fun hnot => absurd hf hnot⟩
  · exact ⟨fun h => absurd h hf, fun _ => .inr ⟨text, by simp only [reply, hd]⟩⟩
  · exact ⟨fun h => absurd h hf, fun _ => .inl ⟨by simp only [reply, hd], .inl ⟨m, hm⟩⟩⟩
  · exact ⟨fun h => absurd h hf, fun _ => .inl ⟨by simp only [reply, hd], .inr ⟨m, hm⟩⟩⟩

/-- The frame that a run accepted is the first, and its manifest is the store's. -/
theorem Served.accepts {explain : Option String → Json → String} {o : Orchestrator}
    {os : List Occurrence} {r : Reader} {s : System} {frame : Frame} {rest : List Frame}
    {store : Manifest} (h : Served explain o os r s frame rest store) :
    ∃ man, Accepts explain frame man ∧ store = man.copy := by
  rcases handshake_cases explain frame with ⟨man, hman, hok⟩ | ⟨_, e, he, _⟩
  · refine ⟨man, hman, ?_⟩
    rw [h.accepted] at hok
    exact Except.ok.inj hok
  · rw [h.accepted] at he
    cases he

theorem Accepts.unique {explain : Option String → Json → String} {frame : Frame}
    {man man' : Manifest} (h : Accepts explain frame man) (h' : Accepts explain frame man') :
    man = man' := by
  obtain ⟨hello, hd, _, _, rfl⟩ := h
  obtain ⟨hello', hd', _, _, rfl⟩ := h'
  rw [hd] at hd'
  cases hd'
  rfl

theorem Accepts.handshake {explain : Option String → Json → String} {frame : Frame}
    {man : Manifest} (h : Accepts explain frame man) {e : Error} :
    handshake explain frame ≠ .error e := by
  rcases handshake_cases explain frame with ⟨_, _, hok⟩ | ⟨hnot, _⟩
  · rw [hok]
    nofun
  · exact absurd ⟨man, h⟩ hnot

theorem Tells.keepsProtocol {explain : Option String → Json → String} {o : Orchestrator}
    {os : List Occurrence} {c : Connection} (h : Tells explain o os c) :
    KeepsProtocol explain o os c := by
  have hmem : ∀ i ev, .orchestrator (.effect i ev) ∈ os → .effect i ev ∈ actions os :=
    fun i ev hev => List.mem_filterMap.mpr ⟨_, hev, rfl⟩
  cases h with
  | silent r hr hframes hreplies hactions =>
    constructor
    · intro i ev hev
      have hin := hmem i ev hev
      rw [hactions] at hin
      cases hin
    all_goals
      intro frame rest
      rw [hframes]
      nofun
  | refused r frame e hframe hr hframes hreplies hactions =>
    have hnot : ∀ man, ¬Accepts explain frame man := fun man hman => hman.handshake hframe
    constructor
    · intro i ev hev
      have hin := hmem i ev hev
      rw [hactions] at hin
      cases hin
    · intro frame' rest' hfirst _
      rw [hframes] at hfirst
      cases hfirst
      refine ⟨rfl, hactions, e, ?_⟩
      rcases handshake_cases explain frame with ⟨man, hman, _⟩ | ⟨_, e', he', hfinal, hid⟩
      · exact absurd hman (hnot man)
      · rw [hframe] at he'
        cases he'
        exact ⟨hfinal, hid, hreplies⟩
    all_goals
      intro frame' rest' man hfirst hman
      rw [hframes] at hfirst
      cases hfirst
      exact absurd hman (hnot man)
  | served r s frame rest store hS =>
    obtain ⟨man, hman, rfl⟩ := hS.accepts
    obtain ⟨labels, hrun⟩ := hS.run
    constructor
    · exact fun i ev _ => ⟨frame, rest, man, hS.read, hman⟩
    · intro frame' rest' hfirst hnot
      rw [hS.read] at hfirst
      cases hfirst
      exact absurd ⟨man, hman⟩ hnot
    · intro frame' rest' man' hfirst hman'
      rw [hS.read] at hfirst
      cases hfirst
      obtain rfl := hman.unique hman'
      have hready : 0 < man.copy.len := by
        obtain ⟨hello, _, _, hpos, rfl⟩ := hman
        exact hpos
      exact ⟨s, rfl, exec_store hrun, fun i => exec_runsOn hready hrun i⟩
    · intro frame' rest' man' hfirst _
      rw [hS.read] at hfirst
      cases hfirst
      exact ⟨hS.answered, hS.before, hS.reads⟩

/-- Reading and answering a frame that gets a reply leaves the orchestrator alone. -/
structure LeavesAlone (explain : Option String → Json → String) (o : Orchestrator)
    (c : Connection) : Prop where
  receive : ∀ f e c' out, c.reader = .loop → reply explain f = some e →
    stepConnection explain o c (.receive f) = some (c', out) →
    c'.orch = c.orch ∧ c'.reader.pending = [e] ∧ out = [.received f]
  answer : ∀ e c' out, c.reader.pending = [e] →
    stepConnection explain o c .reader = some (c', out) →
    c'.orch = c.orch ∧ c'.reader.pending = [] ∧ out = [.replied e]

theorem leavesAlone (explain : Option String → Json → String) (o : Orchestrator)
    (c : Connection) : LeavesAlone explain o c := by
  constructor
  · intro f e c' out hr hreply h
    simp only [stepConnection, stepReceive, hr] at h
    simp only [reply] at hreply
    cases hd : dispatch explain f with
    | call call =>
      rw [hd] at hreply
      cases hreply
    | report e' =>
      rw [hd] at h hreply
      cases hreply
      cases h
      exact ⟨rfl, rfl, rfl⟩
    | fatal e' =>
      rw [hd] at h hreply
      cases hreply
      cases h
      exact ⟨rfl, rfl, rfl⟩
  · intro e c' out hpending h
    simp only [stepConnection, stepReader] at h
    cases hr : c.reader with
    | refuse e' =>
      rw [hr] at h hpending
      cases hpending
      cases h
      exact ⟨rfl, rfl, rfl⟩
    | report e' =>
      rw [hr] at h hpending
      cases hpending
      cases h
      exact ⟨rfl, rfl, rfl⟩
    | fatal e' =>
      rw [hr] at h hpending
      cases hpending
      cases h
      exact ⟨rfl, rfl, rfl⟩
    | _ =>
      rw [hr] at hpending
      cases hpending

/-- **The connection protocol**, over every run: whatever frames arrive, whatever the JSON
package says about them, and however the goroutines are scheduled. -/
theorem connection_protocol (explain : Option String → Json → String) (o : Orchestrator)
    (turns : List Turn) (c : Connection) (os : List Occurrence)
    (h : exec (stepConnection explain o) .start turns = some (c, os)) :
    KeepsProtocol explain o os c ∧ LeavesAlone explain o c ∧ ∀ f, RepliesTo explain f :=
  ⟨(exec_tells h).keepsProtocol, leavesAlone explain o c, repliesTo explain⟩

/-- A hello of two categories. -/
def helloFrame : Frame :=
  .ok (.obj [("protocol_version", .int 1), ("type", .str "hello"), ("manifest", .obj
    [("shrub", .obj [("footprint_radius", .int 2), ("ground_snap", .bool true),
        ("instanceable", .bool true), ("display_name", .str "Shrub")]),
      ("dog", .obj [("footprint_radius", .int 3), ("ground_snap", .bool true),
        ("instanceable", .bool false), ("display_name", .str "Dog")])])])

/-- A second hello is reported, and reading goes on. -/
theorem connection_protocol_second_hello :
    ∃ c os, exec (stepConnection (fun _ _ => "") (.new sawtoothDraws)) .start
        [.receive helloFrame, .receive helloFrame, .reader] = some (c, os) ∧
      replies os = [connectionError CodeInternal
        "hello is sent exactly once per connection, before anything else" true] ∧
      KeepsProtocol (fun _ _ => "") (.new sawtoothDraws) os c := by
  have hrun : (exec (stepConnection (fun _ _ => "") (.new sawtoothDraws)) .start
      [.receive helloFrame, .receive helloFrame, .reader]).map (fun p => replies p.2) =
        some [connectionError CodeInternal
          "hello is sent exactly once per connection, before anything else" true] := by
    decide +kernel
  obtain ⟨⟨c, os⟩, hexec, hreplies⟩ := Option.map_eq_some_iff.mp hrun
  exact ⟨c, os, hexec, hreplies, (connection_protocol _ _ _ c os hexec).1⟩

/-- A frame of another version whose `type` is present, and is no string. -/
def nullTypeFrame : Frame := .ok (.obj [("protocol_version", .int 2), ("type", .null)])

/-- **A `type` that is no string** does not make a version mismatch recoverable. -/
theorem null_type_is_fatal :
    ∃ c os e, exec (stepConnection (fun _ _ => "") (.new sawtoothDraws)) .start
        [.receive helloFrame, .receive nullTypeFrame, .reader] = some (c, os) ∧
      replies os = [e] ∧ e.recoverable = false ∧ e.code = CodeProtocolVersionMismatch := by
  have hrun : (exec (stepConnection (fun _ _ => "") (.new sawtoothDraws)) .start
      [.receive helloFrame, .receive nullTypeFrame, .reader]).map (fun p => replies p.2) =
        some [connectionError CodeProtocolVersionMismatch
          "protocol: protocol version mismatch: server speaks v1, message carries v2" false] := by
    decide +kernel
  obtain ⟨⟨c, os⟩, hexec, hreplies⟩ := Option.map_eq_some_iff.mp hrun
  exact ⟨c, os, _, hexec, hreplies, rfl, rfl⟩

end AetherForge
