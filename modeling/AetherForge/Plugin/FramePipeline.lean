import AetherForge.Library.ThreadPool
import AetherForge.Plugin.Client

/-!
# The frame pipeline

Frames are accepted on the game thread, parsed by background tasks and broadcast on the game
thread.  The flag `bParseWorkerActive` has at most one owner, so frames stay in order; and a task
that has cleared it looks at the queue again, so no frame is left behind.

* `Piped` — the invariant between what was shown and the state;
* `frame_pipeline` — frames go through in order, once, one task at a time, and none is stranded.
-/

namespace AetherForge.Plugin

open Transition

/-! ### The invariant -/

/-- The task has the flag: it was taken for it and it has not cleared it. -/
def ParseWorker.owns : ParseWorker → Bool
  | .scheduled => true
  | .dequeue => true
  | .parse _ => true
  | .enqueue _ => true
  | .clear => true
  | .recheck => false
  | .acquire => false
  | .finished => false

/-- The task is in its loop, taking frames out, parsing them and handing them on. -/
def ParseWorker.draining : ParseWorker → Bool
  | .dequeue => true
  | .parse _ => true
  | .enqueue _ => true
  | _ => false

/-- The task has cleared the flag and has not finished its re-check. -/
def ParseWorker.rechecks : ParseWorker → Bool
  | .recheck => true
  | .acquire => true
  | _ => false

/-- The frame that the task has taken out and not yet parsed. -/
def ParseWorker.unparsed : ParseWorker → List Frame
  | .parse frame => [frame]
  | _ => []

/-- The message that the task has not yet put into the second queue. -/
def ParseWorker.unqueued : ParseWorker → List Inbound
  | .enqueue parsed => [parsed]
  | _ => []

theorem ParseWorker.unparsed_of_not_owns (w : ParseWorker) (h : w.owns = false) :
    w.unparsed = [] := by
  cases w with
  | parse => cases h
  | scheduled | dequeue | enqueue | clear | recheck | acquire | finished => rfl

theorem ParseWorker.unqueued_of_not_owns (w : ParseWorker) (h : w.owns = false) :
    w.unqueued = [] := by
  cases w with
  | enqueue => cases h
  | scheduled | dequeue | parse | clear | recheck | acquire | finished => rfl

theorem ParseWorker.owns_of_draining (w : ParseWorker) (h : w.draining = true) :
    w.owns = true := by
  cases w with
  | dequeue | parse | enqueue => rfl
  | scheduled | clear | recheck | acquire | finished => cases h

/-- **The invariant** between what was shown and the state.  The flag is set exactly while one
task, or the game thread on its behalf, owns it; the frames accepted are those parsed, the one in
the owner's hands and those in the first queue; the messages of those parsed are the ones
broadcast, those in the second queue and the one in the owner's hands; and frames in the first
queue have somebody who will look. -/
structure Piped (parse : String → ServerMessage) (past : List ClientAction) (c : Client) :
    Prop where
  owner : c.workers.countP ParseWorker.owns + (if c.gameThread = .asyncTask then 1 else 0) =
    if c.parseWorkerActive then 1 else 0
  accepted : acceptedFrames past =
    parsedFrames past ++ (c.workers.flatMap ParseWorker.unparsed ++ c.rawInbound)
  parsed : (parsedFrames past).map (parseFrame parse) =
    broadcasts past ++ (c.parsedInbound ++ c.workers.flatMap ParseWorker.unqueued)
  woken : c.rawInbound ≠ [] → c.gameThread ≠ .compareExchange →
    c.parseWorkerActive = true ∨ ∃ w ∈ c.workers, w.rechecks = true

theorem piped_start (parse : String → ServerMessage) : Piped parse [] .start :=
  ⟨rfl, rfl, rfl, fun h => absurd rfl h⟩

section Invariant

variable {parse : String → ServerMessage} {past : List ClientAction} {c c' : Client}
  {o : List ClientAction}

/-- A step that shows nothing of the pipeline and leaves the queues, the flag and the tasks
alone, on a game thread that is idle before and after. -/
theorem Piped.aside (hI : Piped parse past c) (hidle : c.gameThread = .idle)
    (hraw : c'.rawInbound = c.rawInbound) (hparsed : c'.parsedInbound = c.parsedInbound)
    (hactive : c'.parseWorkerActive = c.parseWorkerActive) (hworkers : c'.workers = c.workers)
    (hgame : c'.gameThread = .idle ∨ c'.gameThread = .dispatching) (ha : acceptedFrames o = [])
    (hp : parsedFrames o = []) (hb : broadcasts o = []) : Piped parse (past ++ o) c' := by
  obtain ⟨howner, hacc, hpar, hwoken⟩ := hI
  have hne : c'.gameThread ≠ .asyncTask := by
    rcases hgame with h | h <;> rw [h] <;> decide
  refine ⟨?_, ?_, ?_, ?_⟩
  · rw [hworkers, hactive, if_neg hne]
    rw [hidle] at howner
    exact howner
  · rw [acceptedFrames_append, parsedFrames_append, ha, hp, List.append_nil, List.append_nil,
      hworkers, hraw, hacc]
  · rw [parsedFrames_append, broadcasts_append, hp, hb, List.append_nil, List.append_nil, hparsed,
      hworkers, hpar]
  · rw [hraw, hactive, hworkers]
    exact fun h _ => hwoken h (by rw [hidle]; decide)

/-- An ignored event. -/
theorem Piped.ignored (hI : Piped parse past c) (hidle : c.gameThread = .idle) :
    Piped parse (past ++ []) c :=
  hI.aside hidle rfl rfl rfl rfl (.inl hidle) rfl rfl rfl

/-- A frame arrives: it goes to the end of the first queue. -/
theorem Piped.arrival (hI : Piped parse past c) (hidle : c.gameThread = .idle) (frame : Frame) :
    Piped parse (past ++ [.accepted frame])
      { c with
        rawInbound := c.rawInbound ++ [frame]
        gameThread := .compareExchange } := by
  obtain ⟨howner, hacc, hpar, _⟩ := hI
  refine ⟨?_, ?_, ?_, ?_⟩
  · rw [hidle] at howner
    exact howner
  · simp [hacc, ClientAction.accepted?, ClientAction.parsed?]
  · simp [hpar, ClientAction.parsed?, ClientAction.message?]
  · exact fun _ h => absurd rfl h

/-- **The idle game thread** keeps the invariant. -/
theorem handle_piped {event : ClientEvent} (hI : Piped parse past c)
    (hidle : c.gameThread = .idle) (h : c.handle event = some (c', o)) :
    Piped parse (past ++ o) c' := by
  cases event with
  | connect connected manifest =>
    simp only [Client.handle] at h
    split at h <;> cases h
    · exact hI.ignored hidle
    · exact hI.aside hidle rfl rfl rfl rfl (.inl hidle) rfl rfl rfl
  | disconnect =>
    cases h
    exact hI.aside hidle rfl rfl rfl rfl (.inl hidle) rfl rfl rfl
  | socketConnected | socketConnectionError | socketClosed =>
    simp only [Client.handle, Client.fromSocket, Option.some.injEq] at h
    split at h <;> cases h
    · exact hI.aside hidle rfl rfl rfl rfl (.inl hidle) rfl rfl rfl
    · exact hI.ignored hidle
  | rawMessage socket message =>
    simp only [Client.handle, Client.fromSocket, Option.some.injEq] at h
    split at h <;> cases h
    · exact hI.arrival hidle ⟨socket, message⟩
    · exact hI.ignored hidle
  | dispatchTick =>
    cases h
    exact hI.aside hidle rfl rfl rfl rfl (.inr rfl) rfl rfl rfl
  | gameThread => cases h
  | worker => cases h

/-- **The game thread under way** keeps the invariant. -/
theorem stepGameThread_piped (hI : Piped parse past c) (h : c.stepGameThread = some (c', o)) :
    Piped parse (past ++ o) c' := by
  obtain ⟨howner, hacc, hpar, hwoken⟩ := hI
  unfold Client.stepGameThread at h
  split at h
  · cases h
  · rename_i hgame
    rw [hgame] at howner
    split at h <;> rename_i hactive <;> cases h <;> rw [List.append_nil]
    · exact ⟨howner, hacc, hpar, fun _ _ => .inl hactive⟩
    · refine ⟨?_, hacc, hpar, fun _ _ => .inl rfl⟩
      rw [if_neg hactive] at howner
      simp only [if_true]
      exact congrArg (· + 1) howner
  · rename_i hgame
    cases h
    rw [hgame] at howner hwoken
    rw [List.append_nil]
    refine ⟨?_, ?_, ?_, fun hraw _ => ?_⟩
    · rw [List.countP_append]
      exact howner
    · rw [hacc, List.flatMap_append]
      simp [ParseWorker.unparsed]
    · rw [hpar, List.flatMap_append]
      simp [ParseWorker.unqueued]
    · rcases hwoken hraw (by decide) with h | ⟨w, hw, hre⟩
      · exact .inl h
      · exact .inr ⟨w, List.mem_append_left _ hw, hre⟩
  · rename_i hgame
    rw [hgame] at howner hwoken
    split at h <;> rename_i hqueue <;> cases h
    · rw [List.append_nil]
      exact ⟨howner, hacc, hpar, fun hraw _ => hwoken hraw (by decide)⟩
    · refine ⟨?_, ?_, ?_, fun hraw _ => hwoken hraw (by decide)⟩
      · rw [hgame]
        exact howner
      · simp [hacc, ClientAction.accepted?, ClientAction.parsed?]
      · simp [hpar, hqueue, ClientAction.parsed?, ClientAction.message?]

/-- A task goes on without touching the queues, and with the same in its hands; the flag may
change with it. -/
theorem Piped.turn {k : ℕ} {w : ParseWorker} (hI : Piped parse past c)
    (hw : c.workers[k]? = some w) (w' : ParseWorker) (hunparsed : w'.unparsed = w.unparsed)
    (hunqueued : w'.unqueued = w.unqueued) (active : Bool)
    (howner : c.workers.countP ParseWorker.owns + (if w'.owns then 1 else 0) +
        (if c.gameThread = .asyncTask then 1 else 0) =
      (if active then 1 else 0) + (if w.owns then 1 else 0))
    (hwoken : c.rawInbound ≠ [] → c.gameThread ≠ .compareExchange →
      active = true ∨ ∃ u ∈ c.workers.set k w', u.rechecks = true) :
    Piped parse (past ++ []) { c.setWorker k w' with parseWorkerActive := active } := by
  have hcount := ThreadPool.countP_set hw w' ParseWorker.owns
  rw [List.append_nil]
  refine ⟨?_, ?_, ?_, hwoken⟩
  · show (c.workers.set k w').countP ParseWorker.owns +
      (if c.gameThread = .asyncTask then 1 else 0) = if active then 1 else 0
    omega
  · show _ = parsedFrames past ++ ((c.workers.set k w').flatMap _ ++ c.rawInbound)
    rw [ThreadPool.flatMap_set_same hw hunparsed, hI.accepted]
  · show _ = broadcasts past ++ (c.parsedInbound ++ (c.workers.set k w').flatMap _)
    rw [ThreadPool.flatMap_set_same hw hunqueued, hI.parsed]

/-- The same, when the flag stays and so does who owns it. -/
theorem Piped.quiet {k : ℕ} {w w' : ParseWorker} (hI : Piped parse past c)
    (hw : c.workers[k]? = some w) (howns : w'.owns = w.owns) (hunparsed : w'.unparsed = w.unparsed)
    (hunqueued : w'.unqueued = w.unqueued)
    (hre : c.rawInbound ≠ [] → w.rechecks = true →
      c.parseWorkerActive = true ∨ w'.rechecks = true) :
    Piped parse (past ++ []) (c.setWorker k w') := by
  refine hI.turn hw w' hunparsed hunqueued c.parseWorkerActive ?_ fun hraw hgame => ?_
  · have howner := hI.owner
    rw [howns]
    omega
  · rcases hI.woken hraw hgame with h | ⟨u, hu, hure⟩
    · exact .inl h
    · by_cases huw : u = w
      · subst huw
        exact (hre hraw hure).imp_right fun h =>
          ⟨w', List.mem_set (List.getElem?_eq_some_iff.mp hw).1 w', h⟩
      · exact .inr ⟨u, ThreadPool.mem_set_of_ne hw hu huw, hure⟩

/-- What a state with an owner says of the pool: nobody else owns the flag, and it is set. -/
theorem Piped.owner_unique {k : ℕ} {w : ParseWorker} (hI : Piped parse past c)
    (hw : c.workers[k]? = some w) (howns : w.owns = true) :
    c.workers.countP ParseWorker.owns = 1 ∧ c.parseWorkerActive = true ∧
      c.gameThread ≠ .asyncTask := by
  have hpos : 0 < c.workers.countP ParseWorker.owns :=
    List.countP_pos_iff.mpr ⟨w, List.mem_of_getElem? hw, howns⟩
  have howner := hI.owner
  cases hactive : c.parseWorkerActive with
  | false =>
    rw [hactive] at howner
    simp only [Bool.false_eq_true, if_false] at howner
    omega
  | true =>
    rw [hactive, if_pos rfl] at howner
    refine ⟨by omega, rfl, fun hgame => ?_⟩
    rw [if_pos hgame] at howner
    omega

/-- The owner goes on and stays the owner, moving what it holds between the queues. -/
theorem Piped.advance {k : ℕ} {w w' : ParseWorker} (hI : Piped parse past c)
    (hw : c.workers[k]? = some w) (howns : w.owns = true) (howns' : w'.owns = true)
    (hworkers : c'.workers = c.workers.set k w')
    (hactive : c'.parseWorkerActive = c.parseWorkerActive) (hgame : c'.gameThread = c.gameThread)
    (hacc : w.unparsed ++ c.rawInbound =
      parsedFrames o ++ (w'.unparsed ++ c'.rawInbound))
    (hpar : c.parsedInbound ++ w.unqueued ++ (parsedFrames o).map (parseFrame parse) =
      c'.parsedInbound ++ w'.unqueued)
    (ha : acceptedFrames o = []) (hb : broadcasts o = []) : Piped parse (past ++ o) c' := by
  obtain ⟨hone, hset, _⟩ := hI.owner_unique hw howns
  obtain ⟨howner, hIacc, hIpar, _⟩ := hI
  obtain ⟨hunparsed, hunparsed'⟩ :=
    ThreadPool.flatMap_set ParseWorker.unparsed_of_not_owns hone.le hw howns w'
  obtain ⟨hunqueued, hunqueued'⟩ :=
    ThreadPool.flatMap_set ParseWorker.unqueued_of_not_owns hone.le hw howns w'
  refine ⟨?_, ?_, ?_, fun _ _ => .inl (hactive.trans hset)⟩
  · have hcount := ThreadPool.countP_set hw w' ParseWorker.owns
    rw [howns, howns'] at hcount
    rw [hworkers, hactive, hgame]
    omega
  · rw [hunparsed] at hIacc
    rw [hworkers, hunparsed', acceptedFrames_append, parsedFrames_append, ha, List.append_nil,
      hIacc, hacc, List.append_assoc]
  · rw [hunqueued] at hIpar
    rw [hworkers, hunqueued', parsedFrames_append, broadcasts_append, hb, List.append_nil,
      List.map_append, hIpar, ← hpar, List.append_assoc]

/-- **A task** keeps the invariant. -/
theorem stepWorker_piped {k : ℕ} {w : ParseWorker} (hI : Piped parse past c)
    (hw : c.workers[k]? = some w) (h : c.stepWorker parse k w = some (c', o)) :
    Piped parse (past ++ o) c' := by
  cases w with
  | scheduled =>
    cases h
    exact hI.quiet hw rfl rfl rfl fun _ hre => by cases hre
  | dequeue =>
    simp only [Client.stepWorker] at h
    split at h <;> rename_i hraw <;> cases h
    · exact hI.quiet hw rfl rfl rfl fun _ hre => by cases hre
    · exact hI.advance hw rfl rfl rfl rfl rfl (by rw [hraw]; rfl) (by simp [ParseWorker.unqueued,
        parsedFrames, Client.setWorker]) rfl rfl
  | parse frame =>
    cases h
    refine hI.advance hw rfl rfl rfl rfl rfl rfl ?_ rfl rfl
    simp [ParseWorker.unqueued, ClientAction.parsed?, Client.setWorker]
  | enqueue parsed =>
    cases h
    refine hI.advance hw rfl rfl rfl rfl rfl rfl ?_ rfl rfl
    simp [ParseWorker.unqueued, parsedFrames]
  | clear =>
    cases h
    obtain ⟨hone, _, hgame⟩ := hI.owner_unique hw rfl
    refine hI.turn hw .recheck rfl rfl false ?_ fun _ _ =>
      .inr ⟨_, List.mem_set (List.getElem?_eq_some_iff.mp hw).1 _, rfl⟩
    rw [hone, if_neg hgame]
    rfl
  | recheck =>
    cases h
    by_cases hraw : c.rawInbound = []
    · rw [if_pos (by rw [hraw]; rfl)]
      exact hI.quiet hw rfl rfl rfl fun hne _ => absurd hraw hne
    · rw [if_neg (by simpa using hraw)]
      exact hI.quiet hw rfl rfl rfl fun _ _ => .inr rfl
  | acquire =>
    simp only [Client.stepWorker] at h
    split at h <;> rename_i hactive <;> cases h
    · exact hI.quiet hw rfl rfl rfl fun _ _ => .inl hactive
    · refine hI.turn hw .dequeue rfl rfl true ?_ fun _ _ => .inl rfl
      have howner := hI.owner
      rw [if_neg hactive] at howner
      simp only [ParseWorker.owns, if_true, Bool.false_eq_true, if_false]
      omega
  | finished => cases h

/-- **Every step** of the client keeps the invariant. -/
theorem stepClient_piped {event : ClientEvent} (hI : Piped parse past c)
    (h : stepClient parse c event = some (c', o)) : Piped parse (past ++ o) c' := by
  cases event with
  | gameThread => exact stepGameThread_piped hI h
  | worker k =>
    obtain ⟨w, hw, hstep⟩ := Option.bind_eq_some_iff.mp h
    exact stepWorker_piped hI hw hstep
  | _ =>
    obtain ⟨hidle, hhandle⟩ := Option.ite_none_right_eq_some.mp h
    exact handle_piped hI hidle hhandle

/-- Frames in the first queue have a task that will look, or one that is about to be started. -/
theorem Piped.looked_after (hI : Piped parse past c) (hraw : c.rawInbound ≠ [])
    (hgame : c.gameThread ≠ .compareExchange) :
    c.gameThread = .asyncTask ∨ ∃ w ∈ c.workers, w.owns = true ∨ w.rechecks = true := by
  rcases hI.woken hraw hgame with hactive | ⟨w, hw, hre⟩
  · have howner := hI.owner
    rw [hactive, if_pos rfl] at howner
    by_cases hasync : c.gameThread = .asyncTask
    · exact .inl hasync
    · rw [if_neg hasync, Nat.add_zero] at howner
      obtain ⟨w, hw, howns⟩ := List.countP_pos_iff.mp (howner ▸ Nat.one_pos)
      exact .inr ⟨w, hw, .inl howns⟩
  · exact .inr ⟨w, hw, .inr hre⟩

theorem run_piped {events : List ClientEvent} {os : List ClientAction}
    (h : exec (stepClient parse) .start events = some (c, os)) : Piped parse os c :=
  exec_history (J := Piped parse) (fun _ _ _ _ _ hI hstep => stepClient_piped hI hstep)
    (piped_start parse) h

end Invariant

/-! ### The pipeline -/

/-- **The frame pipeline.**  After every run of the client:

* the frames parsed are a prefix of the frames accepted, and the messages broadcast are those of
  a prefix of the frames parsed, hence of the frames accepted: nothing is reordered, skipped or
  handled twice;
* at most one task is taking frames out, parsing them and handing them on;
* when frames wait in the first queue and the game thread is not between `Enqueue` and the
  compare-exchange, it is about to start a task, or some task is scheduled, is in its loop, or has
  yet to finish its re-check. -/
theorem frame_pipeline {parse : String → ServerMessage} {events : List ClientEvent} {c : Client}
    {os : List ClientAction} (h : exec (stepClient parse) .start events = some (c, os)) :
    parsedFrames os <+: acceptedFrames os ∧
    broadcasts os <+: (parsedFrames os).map (parseFrame parse) ∧
    broadcasts os <+: (acceptedFrames os).map (parseFrame parse) ∧
    c.workers.countP ParseWorker.draining ≤ 1 ∧
    (c.rawInbound ≠ [] → c.gameThread ≠ .compareExchange →
      c.gameThread = .asyncTask ∨ ∃ w ∈ c.workers, w.owns = true ∨ w.rechecks = true) := by
  have hI := run_piped h
  have hparsed : parsedFrames os <+: acceptedFrames os := ⟨_, hI.accepted.symm⟩
  have hbroadcast : broadcasts os <+: (parsedFrames os).map (parseFrame parse) :=
    ⟨_, hI.parsed.symm⟩
  refine ⟨hparsed, hbroadcast, hbroadcast.trans (hparsed.map _), ?_, hI.looked_after⟩
  have hle : c.workers.countP ParseWorker.draining ≤ c.workers.countP ParseWorker.owns :=
    List.countP_mono_left fun w _ => w.owns_of_draining
  have howner := hI.owner
  split at howner <;> split at howner <;> omega

/-- Three frames; the third arrives when the first task has cleared the flag, so a second task is
started, and the first finds the flag taken at its re-check. -/
def handOver : List ClientEvent :=
  [.connect false .empty, .socketConnected 0, .rawMessage 0 "a", .gameThread, .gameThread,
    .worker 0, .worker 0, .rawMessage 0 "b", .gameThread, .worker 0, .worker 0, .worker 0,
    .worker 0,
    .worker 0, .worker 0, .worker 0, .rawMessage 0 "c", .gameThread, .worker 0, .gameThread,
    .worker 0, .dispatchTick, .gameThread, .gameThread]

theorem frame_pipeline_handOver :
    ∃ c os, exec (stepClient .invalid) .start handOver = some (c, os) ∧
      acceptedFrames os = [⟨0, "a"⟩, ⟨0, "b"⟩, ⟨0, "c"⟩] ∧ (broadcasts os).length = 2 ∧
      broadcasts os <+: [⟨0, .invalid "a"⟩, ⟨0, .invalid "b"⟩, ⟨0, .invalid "c"⟩] ∧
      c.workers.countP ParseWorker.draining ≤ 1 ∧
      ∃ w ∈ c.workers, w.owns = true ∨ w.rechecks = true := by
  have hrun : (exec (stepClient .invalid) .start handOver).isSome = true := rfl
  obtain ⟨⟨c, os⟩, h⟩ := Option.isSome_iff_exists.mp hrun
  have hstate : (exec (stepClient .invalid) .start handOver).map (fun p =>
      (acceptedFrames p.2, (broadcasts p.2).length, p.1.rawInbound, p.1.gameThread)) =
      some ([⟨0, "a"⟩, ⟨0, "b"⟩, ⟨0, "c"⟩], 2, [⟨0, "c"⟩], .dispatching) := by
    decide +kernel
  rw [h] at hstate
  simp only [Option.map_some, Option.some.injEq, Prod.mk.injEq] at hstate
  obtain ⟨haccepted, hcount, hraw, hgame⟩ := hstate
  obtain ⟨_, _, hprefix, hone, hlooked⟩ := frame_pipeline h
  rw [haccepted] at hprefix
  refine ⟨c, os, h, haccepted, hcount, hprefix, hone, ?_⟩
  refine (hlooked ?_ ?_).resolve_left ?_
  · rw [hraw]
    simp
  · rw [hgame]
    decide
  · rw [hgame]
    decide

end AetherForge.Plugin
