import AetherForge.Backend.ConnectionProtocol
import AetherForge.Backend.FailedSends

/-!
# What goes through a connection

The reader hands each request that it reads to the orchestrator, which makes one generation of it;
the messages whose Send succeeds, and the errors of the reader itself, are written to the socket.

* `step_requests` — a step of the orchestrator loses no request, and makes none up;
* `connection_requests` — after any run the generations, and the request for which one is still to
  be created, are the requests that were read, in their order;
* `writes_filter` — what is written of a generation, among all that is written.
-/

namespace AetherForge

open Go GoJson Interaction Transition

/-! ### The orchestrator -/

/-- The request for which the caller has still to create a generation. -/
def Caller.pending : Caller → List Generate
  | .retire (some req) _ => [req]
  | .create req => [req]
  | _ => []

def Call.request : Call → List Generate
  | .generate req => [req]
  | _ => []

def Label.request : Label → List Generate
  | .call c => c.request
  | _ => []

/-- The requests that were handed to the orchestrator. -/
def System.requests (s : System) : List Generate := s.gens.map (·.req) ++ s.caller.pending

section Steps

variable {o : Orchestrator} {s s' : System} {out : List Action}

theorem update_requests (s : System) (i : ℕ) {f : Generation → Generation}
    (hf : ∀ g, (f g).req = g.req) : (s.update i f).gens.map (·.req) = s.gens.map (·.req) := by
  refine List.ext_getElem? fun j => ?_
  rw [List.getElem?_map, List.getElem?_map, System.update_get]
  split
  · cases s.gens[j]? with
    | none => rfl
    | some g => exact congrArg some (hf g)
  · rfl

theorem stepGoroutine_requests {i : ℕ} {g : Generation} {ans : Answers}
    (h : stepGoroutine s i g ans = some (s', out)) : s'.requests = s.requests := by
  have hsetPc : ∀ pc, (s.setPc i pc).gens.map (·.req) = s.gens.map (·.req) :=
    fun _ => update_requests s i fun _ => rfl
  unfold stepGoroutine at h
  split at h
  · cases h
  · cases h
    exact congrArg (· ++ s.caller.pending) (hsetPc _)
  · split at h
    · cases h
    · cases h
      exact congrArg (· ++ s.caller.pending) (hsetPc _)
  · cases h
    exact congrArg (· ++ s.caller.pending) (hsetPc _)
  · cases h
    exact congrArg (· ++ s.caller.pending) (hsetPc _)
  · cases h
    exact congrArg (· ++ s.caller.pending) (hsetPc _)
  · cases h
    refine congrArg (· ++ s.caller.pending) ?_
    exact (update_requests (s.cancelContext i) i (f := fun g => { g with pc := .closing })
      fun _ => rfl).trans (update_requests s i fun _ => rfl)
  · cases h
    exact congrArg (· ++ s.caller.pending) (hsetPc _)
  · cases h

theorem retired_requests {m : System} {next : Option Generate} (hgens : m.gens = s.gens)
    (h : retired m next = (s', out)) :
    s'.requests = s.gens.map (·.req) ++ (Caller.retire next .lock).pending := by
  cases next with
  | none =>
    cases h
    rw [System.requests, hgens]
    rfl
  | some req =>
    cases h
    rw [System.requests, hgens]
    rfl

theorem stepRetire_requests {next : Option Generate} {pc : RetirePc}
    (h : stepRetire s next pc = some (s', out)) :
    s'.requests = s.gens.map (·.req) ++ (Caller.retire next pc).pending := by
  have hsame : (Caller.retire next pc).pending = (Caller.retire next .lock).pending := by
    cases next <;> rfl
  rw [hsame]
  have hgoesOn : ∀ pc', s'.caller = .retire next pc' →
      s'.gens.map (·.req) = s.gens.map (·.req) →
      s'.requests = s.gens.map (·.req) ++ (Caller.retire next .lock).pending := by
    intro pc' hcaller hgens
    rw [System.requests, hcaller, hgens]
    cases next <;> rfl
  cases pc with
  | lock =>
    simp only [stepRetire] at h
    split at h <;> cases h
    exact hgoesOn _ rfl rfl
  | read =>
    cases h
    exact hgoesOn _ rfl rfl
  | clear old =>
    cases h
    exact hgoesOn _ rfl rfl
  | unlock old =>
    cases old with
    | none =>
      exact retired_requests (m := { s with mu := none }) rfl (Option.some.inj h)
    | some old =>
      cases h
      exact hgoesOn _ rfl rfl
  | cancel old =>
    cases h
    exact hgoesOn _ rfl (update_requests s old fun _ => rfl)
  | wait old =>
    simp only [stepRetire] at h
    split at h
    · exact retired_requests rfl (Option.some.inj h)
    · cases h

theorem stepCaller_requests (h : stepCaller o s = some (s', out)) : s'.requests = s.requests := by
  have hnone : s'.caller.pending = [] → s.caller.pending = [] →
      s'.gens.map (·.req) = s.gens.map (·.req) → s'.requests = s.requests := by
    intro hpending' hpending hgens
    rw [System.requests, System.requests, hpending', hpending, hgens]
  unfold stepCaller at h
  split at h
  · cases h
  · rename_i next pc hc
    rw [stepRetire_requests h, System.requests, hc]
  · rename_i req hc
    cases h
    rw [System.requests, System.requests, hc, List.map_append]
    exact List.append_nil _
  · rename_i g hc
    split at h <;> cases h
    exact hnone rfl (by rw [hc]; rfl) rfl
  · rename_i g hc
    cases h
    exact hnone rfl (by rw [hc]; rfl) rfl
  · rename_i g hc
    cases h
    exact hnone rfl (by rw [hc]; rfl) rfl
  · rename_i g hc
    cases h
    exact hnone rfl (by rw [hc]; rfl) (update_requests s g fun _ => rfl)
  · rename_i generationId hc
    split at h <;> cases h
    exact hnone rfl (by rw [hc]; rfl) rfl
  · rename_i generationId hc
    cases h
    refine hnone ?_ (by rw [hc]; rfl) rfl
    cases hmatch : matches? s generationId <;> rfl
  · rename_i g hc
    cases h
    exact hnone rfl (by rw [hc]; rfl) (update_requests s g fun _ => rfl)
  · rename_i matched hc
    cases h
    exact hnone rfl (by rw [hc]; rfl) rfl

/-- **No request is lost, and none made up.** -/
theorem step_requests {a : Label} (h : step o s a = some (s', out)) :
    s'.requests = s.requests ++ a.request := by
  cases a with
  | call c =>
    simp only [step] at h
    split at h
    · rename_i hidle
      cases h
      rw [System.requests, System.requests, hidle, List.append_assoc]
      cases c <;> rfl
    · cases h
  | caller =>
    rw [stepCaller_requests h]
    exact (List.append_nil _).symm
  | goroutine i ans =>
    simp only [step] at h
    split at h
    · cases h
    · rw [stepGoroutine_requests h]
      exact (List.append_nil _).symm
  | parentCancel =>
    cases h
    rw [System.requests, List.map_map]
    exact (List.append_nil _).symm

end Steps

/-! ### The connection -/

/-- The requests that the connection has taken on. -/
def Connection.requests (c : Connection) : List Generate :=
  match c.orch with
  | none => []
  | some s => s.requests

section Runs

variable {explain : Option String → Json → String} {o : Orchestrator}

/-- The request that a frame is. -/
def requestIn (explain : Option String → Json → String) (frame : Frame) : Option Generate :=
  match decode explain frame with
  | .ok (.generate m) => some m
  | _ => none

/-- The requests among the frames. -/
def requestsIn (explain : Option String → Json → String) (fs : List Frame) : List Generate :=
  fs.filterMap (requestIn explain)

theorem requestsIn_append (fs fs' : List Frame) :
    requestsIn explain (fs ++ fs') = requestsIn explain fs ++ requestsIn explain fs' :=
  List.filterMap_append

def Dispatch.request : Dispatch → List Generate
  | .call c => c.request
  | _ => []

/-- The loop hands over the request that it has read. -/
theorem dispatch_request (frame : Frame) :
    (dispatch explain frame).request = requestsIn explain [frame] := by
  have hone : requestsIn explain [frame] = (requestIn explain frame).toList := by
    rw [requestsIn]
    cases h : requestIn explain frame <;> simp [h]
  rw [hone, dispatch, requestIn]
  cases hdecode : decode explain frame with
  | error err =>
    cases hv : err.versionMismatch <;> simp only [hv] <;> rfl
  | ok msg => cases msg <;> rfl

/-- The orchestrator has been handed the requests that were read. -/
structure Requested (explain : Option String → Json → String) (past : List Occurrence)
    (c : Connection) : Prop where
  hello : c.reader = .hello → frames past = [] ∧ c.orch = none
  handed : ∀ s, c.orch = some s → s.requests = requestsIn explain (frames past)

variable {past out : List Occurrence} {c c' : Connection}

/-- No frame is read. -/
theorem Requested.quiet (h : Requested explain past c) (hreader : c'.reader ≠ .hello)
    (horch : c'.orch = c.orch) (hout : frames out = []) : Requested explain (past ++ out) c' := by
  refine ⟨fun hr => absurd hr hreader, fun s hs => ?_⟩
  rw [frames_append, hout, List.append_nil]
  exact h.handed s (horch ▸ hs)

/-- The orchestrator takes a step, on a frame if it is called. -/
theorem Requested.work (h : Requested explain past c) {s s' : System} (hs : c.orch = some s)
    {a : Label} {acts : List Action} (hstep : step o s a = some (s', acts)) {r : Reader}
    (hr : r ≠ .hello) (hout : requestsIn explain (frames out) = a.request) :
    Requested explain (past ++ out) ⟨r, some s'⟩ := by
  refine ⟨fun hreader => absurd hreader hr, ?_⟩
  rintro _ ⟨⟩
  rw [step_requests hstep, h.handed s hs, frames_append, requestsIn_append, hout]

theorem step_requested {turn : Turn} (h : Requested explain past c)
    (hstep : stepConnection explain o c turn = some (c', out)) :
    Requested explain (past ++ out) c' := by
  cases turn with
  | orchestrator a =>
    obtain ⟨s, s', acts, hs, hwork, rfl, rfl⟩ := stepConnection_orchestrator hstep
    refine h.work hs hwork (fun hr => ?_) ?_
    · have hnone := (h.hello hr).2
      rw [hs] at hnone
      cases hnone
    · rw [frames_actions]
      cases a with
      | call call => cases hstep
      | caller | goroutine | parentCancel => rfl
  | readFails =>
    obtain ⟨r, orch⟩ := c
    cases r with
    | hello | loop =>
      cases hstep
      exact h.quiet (by simp) rfl rfl
    | refuse | report | fatal | calling | leaving | shuttingDown | closing | closed => cases hstep
  | receive f =>
    obtain ⟨r, orch⟩ := c
    cases r with
    | hello =>
      obtain ⟨hframes, rfl⟩ := h.hello rfl
      simp only [stepConnection, stepReceive] at hstep
      split at hstep
      · cases hstep
        exact ⟨fun hr => (by cases hr), fun s hs => (by cases hs)⟩
      · rename_i store haccepted
        cases hstep
        refine ⟨fun hr => (by cases hr), ?_⟩
        rintro _ ⟨⟩
        rcases handshake_cases explain f with ⟨man, ⟨hello, hdecode, -⟩, -⟩ | ⟨-, e, he, -⟩
        · have hnone : requestIn explain f = none := by rw [requestIn, hdecode]
          rw [frames_append, hframes]
          show [] = requestsIn explain [f]
          rw [requestsIn, List.filterMap_cons_none hnone]
          rfl
        · rw [haccepted] at he
          cases he
    | loop =>
      have hrequest : (dispatch explain f).request = requestsIn explain [f] := dispatch_request f
      simp only [stepConnection, stepReceive] at hstep
      split at hstep
      · rename_i e hd
        cases hstep
        rw [hd] at hrequest
        refine ⟨fun hr => (by cases hr), fun s hs => ?_⟩
        have hframes : frames [.received f] = [f] := rfl
        rw [frames_append, requestsIn_append, hframes, ← hrequest, h.handed s hs]
        exact (List.append_nil _).symm
      · rename_i e hd
        cases hstep
        rw [hd] at hrequest
        refine ⟨fun hr => (by cases hr), fun s hs => ?_⟩
        have hframes : frames [.received f] = [f] := rfl
        rw [frames_append, requestsIn_append, hframes, ← hrequest, h.handed s hs]
        exact (List.append_nil _).symm
      · rename_i call hd
        obtain ⟨⟨c₁, out₁⟩, henter, heq⟩ := Option.map_eq_some_iff.mp hstep
        cases heq
        obtain ⟨s, s', acts, hs, hcall, rfl, rfl⟩ := enter_some henter
        rw [hd] at hrequest
        refine h.work hs hcall (by simp) ?_
        have hframes : frames (.received f :: acts.map .orchestrator) = [f] :=
          congrArg (f :: ·) (frames_actions acts)
        rw [hframes, ← hrequest]
        rfl
    | refuse | report | fatal | calling | leaving | shuttingDown | closing | closed => cases hstep
  | reader =>
    obtain ⟨r, orch⟩ := c
    cases r with
    | hello | loop | closed => cases hstep
    | refuse | report | fatal | closing =>
      cases hstep
      exact h.quiet (by simp) rfl rfl
    | calling | shuttingDown =>
      obtain ⟨rfl, rfl⟩ := returned_some hstep
      exact h.quiet (by simp) rfl rfl
    | leaving =>
      obtain ⟨s, s', acts, hs, hcall, rfl, rfl⟩ := enter_some hstep
      refine h.work hs hcall (by simp) ?_
      rw [frames_actions]
      rfl

/-- **Every request becomes one generation**, in the order in which they were read. -/
theorem connection_requests {turns : List Turn} {os : List Occurrence}
    (h : exec (stepConnection explain o) .start turns = some (c, os)) :
    Requested explain os c := by
  have hrule : Requested explain ([] ++ os) c := by
    refine exec_history (J := Requested explain) (fun _ _ _ _ _ hJ hstep => step_requested hJ hstep)
      ⟨fun _ => ⟨rfl, rfl⟩, ?_⟩ h
    rintro _ ⟨⟩
  exact hrule

/-! ### Frames in -/

/-- The frame that a turn reads. -/
def Turn.frame? : Turn → Option Frame
  | .receive frame => some frame
  | _ => none

theorem step_frames {turn : Turn} (h : stepConnection explain o c turn = some (c', out)) :
    frames out = turn.frame?.toList := by
  cases turn with
  | orchestrator a =>
    obtain ⟨s, s', acts, -, -, -, rfl⟩ := stepConnection_orchestrator h
    exact frames_actions acts
  | readFails =>
    obtain ⟨r, orch⟩ := c
    cases r <;> cases h <;> rfl
  | receive frame =>
    obtain ⟨r, orch⟩ := c
    cases r with
    | hello =>
      simp only [stepConnection, stepReceive] at h
      split at h <;> cases h <;> rfl
    | loop =>
      simp only [stepConnection, stepReceive] at h
      split at h
      · cases h
        rfl
      · cases h
        rfl
      · obtain ⟨⟨c₁, out₁⟩, henter, heq⟩ := Option.map_eq_some_iff.mp h
        cases heq
        obtain ⟨s, s', acts, -, -, -, rfl⟩ := enter_some henter
        exact congrArg (frame :: ·) (frames_actions acts)
    | refuse | report | fatal | calling | leaving | shuttingDown | closing | closed => cases h
  | reader =>
    obtain ⟨r, orch⟩ := c
    cases r with
    | hello | loop | closed => cases h
    | refuse | report | fatal | closing =>
      cases h
      rfl
    | calling | shuttingDown =>
      obtain ⟨-, rfl⟩ := returned_some h
      rfl
    | leaving =>
      obtain ⟨s, s', acts, -, -, -, rfl⟩ := enter_some h
      exact frames_actions acts

/-! ### Messages out -/

/-- The message that is written to the socket. -/
def Occurrence.written? : Occurrence → Option Message
  | .orchestrator (.effect _ ev) => written ev
  | .replied e => some (.error e)
  | _ => none

/-- All that is written to the socket, in order. -/
def writes (os : List Occurrence) : List Message := os.filterMap Occurrence.written?

theorem writes_append (os os' : List Occurrence) : writes (os ++ os') = writes os ++ writes os' :=
  List.filterMap_append

/-- **What is written of a generation**, when a test tells its messages from all others. -/
theorem writes_filter {p : Message → Bool} {i : ℕ} {os : List Occurrence}
    (hreplies : ∀ e ∈ replies os, p (.error e) = false)
    (hmessages : ∀ j ev m, .effect j ev ∈ actions os → written ev = some m →
      (p m = true ↔ j = i)) :
    (writes os).filter p = writtenMessages (eventsOf i (actions os)) := by
  rw [writes, writtenMessages, eventsOf, actions, List.filter_filterMap, List.filterMap_filterMap,
    List.filterMap_filterMap]
  refine List.filterMap_congr fun x hx => ?_
  cases x with
  | received | closed => rfl
  | replied e =>
    have hanonymous := hreplies e (List.mem_filterMap.mpr ⟨_, hx, rfl⟩)
    simp [Occurrence.written?, Occurrence.action?, Option.filter, hanonymous]
  | orchestrator a =>
    cases a with
    | launched | cancelReturned | shutdownReturned => rfl
    | effect j ev =>
      have hmem : .effect j ev ∈ actions os := List.mem_filterMap.mpr ⟨_, hx, rfl⟩
      have hm := hmessages j ev
      simp only [Occurrence.written?, Occurrence.action?, Option.bind_some, Action.eventOf]
      cases hwritten : written ev with
      | none => split <;> simp [hwritten]
      | some m =>
        by_cases hj : j = i
        · simp [hj, hwritten, Option.filter, (hm m hmem hwritten).mpr hj]
        · have hother : p m = false := by
            rw [Bool.eq_false_iff]
            exact fun h => hj ((hm m hmem hwritten).mp h)
          simp [hj, Option.filter, hother]

end Runs

end AetherForge
