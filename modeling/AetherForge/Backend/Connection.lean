import AetherForge.Backend.Decode
import AetherForge.Backend.SingleFlight

/-!
# One connection

`handleWS` of `server.go`: the handshake, the loop that reads frames and hands them to the
orchestrator, and what happens when it ends.  The reader's own statements are interleaved with
the steps of the orchestrator's goroutines; while the reader is inside a method of the
orchestrator, it is the orchestrator's caller.

* `handshake_cases` — the handshake accepts a hello with a manifest, and refuses all else;
* `dispatch_cases` — the loop ends on a version mismatch, hands requests on, reports all else.
-/

namespace AetherForge

open Go GoJson Interaction Transition

/-! ### The reader -/

/-- The next statement of `handleWS`. -/
inductive Reader
  /-- `conn.ReadMessage()` in `handshake`. -/
  | hello
  /-- `sendError` in `handshake`, which then returns false. -/
  | refuse (e : Error)
  /-- `conn.ReadMessage()` in the loop. -/
  | loop
  /-- `sendError` in the loop, which then goes on. -/
  | report (e : Error)
  /-- `sendError` in the loop, which then returns. -/
  | fatal (e : Error)
  /-- Inside `orch.Generate` or `orch.Cancel`. -/
  | calling
  /-- The deferred `orch.Shutdown()`. -/
  | leaving
  /-- Inside it. -/
  | shuttingDown
  /-- The deferred `conn.Close()`. -/
  | closing
  | closed

/-- A connection: its reader and, from the handshake on, its orchestrator, which holds the
store. -/
structure Connection where
  reader : Reader
  orch : Option System

def Connection.start : Connection := ⟨.hello, none⟩

/-- The message of `sendError`; the reader has no generation to name. -/
def connectionError (code message : String) (recoverable : Bool) : Error :=
  ⟨Version, TypeError, "", code, message, recoverable⟩

/-- What the loop does with a frame. -/
inductive Dispatch
  | call (c : Call)
  | report (e : Error)
  | fatal (e : Error)

section Frames

variable (explain : Option String → Json → String)

/-- `handshake` on the first frame: what the store is set to, or the error. -/
def handshake (frame : Frame) : Except Error Manifest :=
  match decode explain frame with
  | .error err =>
    .error (connectionError
      (if err.versionMismatch then CodeProtocolVersionMismatch else CodeExpectedHello)
      err.text false)
  | .ok (.hello hello) =>
    if hello.manifest.len = 0 then
      .error (connectionError CodeExpectedHello
        "hello.manifest must contain at least one category" false)
    else .ok hello.manifest.copy
  | .ok _ =>
    .error (connectionError CodeExpectedHello
      "first message on a connection must be hello" false)

/-- One iteration of the loop. -/
def dispatch (frame : Frame) : Dispatch :=
  match decode explain frame with
  | .error err =>
    if err.versionMismatch then
      .fatal (connectionError CodeProtocolVersionMismatch err.text false)
    else .report (connectionError CodeInternal err.text true)
  | .ok (.generate m) => .call (.generate m)
  | .ok (.cancel m) => .call (.cancel m.generationId)
  | .ok (.hello _) =>
    .report (connectionError CodeInternal
      "hello is sent exactly once per connection, before anything else" true)
  | .ok _ => .report (connectionError CodeInternal "unexpected client message type" true)

end Frames

/-! ### Steps -/

/-- Whose turn it is: a read returns a frame, or fails; the reader goes on; the orchestrator
goes on, as its caller inside a method or as one of its goroutines. -/
inductive Turn
  | receive (frame : Frame)
  | readFails
  | reader
  | orchestrator (a : Label)

/-- What a step shows. -/
inductive Occurrence
  | received (frame : Frame)
  | replied (e : Error)
  | orchestrator (a : Action)
  | closed

/-- Call a method of the orchestrator. -/
def Connection.enter (o : Orchestrator) (c : Connection) (call : Call) (reader : Reader) :
    Option (Connection × List Occurrence) :=
  match c.orch with
  | none => none
  | some s => (step o s (.call call)).map fun p => (⟨reader, some p.1⟩, p.2.map .orchestrator)

/-- Go on after the method has returned. -/
def Connection.returned (c : Connection) (reader : Reader) :
    Option (Connection × List Occurrence) :=
  match c.orch with
  | none => none
  | some s =>
    match s.caller with
    | .idle => some ({ c with reader := reader }, [])
    | _ => none

/-- A frame arrives. -/
def stepReceive (explain : Option String → Json → String) (o : Orchestrator) (c : Connection)
    (frame : Frame) : Option (Connection × List Occurrence) :=
  match c.reader with
  | .hello =>
    match handshake explain frame with
    | .error e => some ({ c with reader := .refuse e }, [.received frame])
    | .ok store => some (⟨.loop, some (.start store)⟩, [.received frame])
  | .loop =>
    match dispatch explain frame with
    | .report e => some ({ c with reader := .report e }, [.received frame])
    | .fatal e => some ({ c with reader := .fatal e }, [.received frame])
    | .call call => (c.enter o call .calling).map fun p => (p.1, .received frame :: p.2)
  | _ => none

/-- The reader goes on. -/
def stepReader (o : Orchestrator) (c : Connection) : Option (Connection × List Occurrence) :=
  match c.reader with
  | .refuse e => some ({ c with reader := .closing }, [.replied e])
  | .report e => some ({ c with reader := .loop }, [.replied e])
  | .fatal e => some ({ c with reader := .leaving }, [.replied e])
  | .calling => c.returned .loop
  | .leaving => c.enter o .shutdown .shuttingDown
  | .shuttingDown => c.returned .closing
  | .closing => some ({ c with reader := .closed }, [.closed])
  | _ => none

/-- One step of a connection. -/
def stepConnection (explain : Option String → Json → String) (o : Orchestrator) :
    Step Connection Turn Occurrence := fun c turn =>
  match turn with
  | .receive frame => stepReceive explain o c frame
  | .readFails =>
    match c.reader with
    | .hello => some ({ c with reader := .closing }, [])
    | .loop => some ({ c with reader := .leaving }, [])
    | _ => none
  | .reader => stepReader o c
  | .orchestrator (.call _) => none
  | .orchestrator a =>
    match c.orch with
    | none => none
    | some s => (step o s a).map fun p => ({ c with orch := some p.1 }, p.2.map .orchestrator)

/-! ### What a run shows -/

def Occurrence.frame? : Occurrence → Option Frame
  | .received frame => some frame
  | _ => none

def Occurrence.reply? : Occurrence → Option Error
  | .replied e => some e
  | _ => none

def Occurrence.action? : Occurrence → Option Action
  | .orchestrator a => some a
  | _ => none

/-- The frames read. -/
def frames (os : List Occurrence) : List Frame := os.filterMap Occurrence.frame?

/-- The errors that the reader sent. -/
def replies (os : List Occurrence) : List Error := os.filterMap Occurrence.reply?

/-- What the orchestrator showed. -/
def actions (os : List Occurrence) : List Action := os.filterMap Occurrence.action?

@[simp] theorem frames_append (os os' : List Occurrence) :
    frames (os ++ os') = frames os ++ frames os' := List.filterMap_append

@[simp] theorem replies_append (os os' : List Occurrence) :
    replies (os ++ os') = replies os ++ replies os' := List.filterMap_append

@[simp] theorem actions_append (os os' : List Occurrence) :
    actions (os ++ os') = actions os ++ actions os' := List.filterMap_append

@[simp] theorem frames_actions (as : List Action) : frames (as.map .orchestrator) = [] := by
  induction as with
  | nil => rfl
  | cons a as ih => exact ih

@[simp] theorem replies_actions (as : List Action) : replies (as.map .orchestrator) = [] := by
  induction as with
  | nil => rfl
  | cons a as ih => exact ih

@[simp] theorem actions_actions (as : List Action) : actions (as.map .orchestrator) = as := by
  induction as with
  | nil => rfl
  | cons a as ih => exact congrArg (a :: ·) ih

/-- The error that the reader is about to send. -/
def Reader.pending : Reader → List Error
  | .refuse e => [e]
  | .report e => [e]
  | .fatal e => [e]
  | _ => []

/-- Whether the loop will read another frame. -/
def Reader.reads : Reader → Bool
  | .loop => true
  | .report _ => true
  | .calling => true
  | _ => false

/-- Whether the handshake is behind. -/
def Reader.established : Reader → Bool
  | .hello => false
  | .refuse _ => false
  | _ => true

/-- The reply to a frame after the handshake, if there is one. -/
def reply (explain : Option String → Json → String) (frame : Frame) : Option Error :=
  match dispatch explain frame with
  | .call _ => none
  | .report e => some e
  | .fatal e => some e

/-! ### Replies -/

section Replies

variable {explain : Option String → Json → String} {frame : Frame}

/-- The frame is a hello with a manifest. -/
def Accepts (explain : Option String → Json → String) (frame : Frame) (man : Manifest) : Prop :=
  ∃ hello, decode explain frame = .ok (.hello hello) ∧ hello.protocolVersion = Version ∧
    0 < hello.manifest.len ∧ man = hello.manifest

/-- **The handshake** sets the store to the manifest of a proper hello, or refuses for good. -/
theorem handshake_cases (explain : Option String → Json → String) (frame : Frame) :
    (∃ man, Accepts explain frame man ∧ handshake explain frame = .ok man.copy) ∨
      ((¬∃ man, Accepts explain frame man) ∧
        ∃ e, handshake explain frame = .error e ∧ e.recoverable = false ∧ e.generationId = "") := by
  have hrefuse : ∀ result, decode explain frame = result →
      (∀ hello, result = .ok (.hello hello) → hello.manifest.len = 0) →
      ¬∃ man, Accepts explain frame man := by
    rintro result hdecode hempty ⟨man, hello, hhello, _, hpos, _⟩
    have := hempty hello (hdecode ▸ hhello)
    omega
  cases hdecode : decode explain frame with
  | error err =>
    refine .inr ⟨hrefuse _ hdecode nofun, ?_⟩
    simp only [handshake, hdecode]
    exact ⟨_, rfl, rfl, rfl⟩
  | ok msg =>
    cases msg with
    | hello hello =>
      by_cases hlen : hello.manifest.len = 0
      · refine .inr ⟨hrefuse _ hdecode ?_, ?_⟩
        · rintro _ ⟨⟩
          exact hlen
        · simp only [handshake, hdecode, if_pos hlen]
          exact ⟨_, rfl, rfl, rfl⟩
      · have hversion : hello.protocolVersion = Version :=
          (Prod.mk.inj (decode_envelope hdecode)).1
        refine .inl ⟨hello.manifest, ⟨hello, hdecode, hversion, Nat.pos_of_ne_zero hlen, rfl⟩, ?_⟩
        simp only [handshake, hdecode, if_neg hlen]
    | _ =>
      refine .inr ⟨hrefuse _ hdecode nofun, ?_⟩
      simp only [handshake, hdecode]
      exact ⟨_, rfl, rfl, rfl⟩

/-- **The loop** ends on a version mismatch, hands requests to the orchestrator, and reports
everything else. -/
theorem dispatch_cases (explain : Option String → Json → String) (frame : Frame) :
    (Mismatched frame ∧ ∃ text, dispatch explain frame =
        .fatal (connectionError CodeProtocolVersionMismatch text false)) ∨
      (¬Mismatched frame ∧ ∃ text, dispatch explain frame =
        .report (connectionError CodeInternal text true)) ∨
      (¬Mismatched frame ∧ ∃ m, decode explain frame = .ok (.generate m) ∧
        dispatch explain frame = .call (.generate m)) ∨
      (¬Mismatched frame ∧ ∃ m, decode explain frame = .ok (.cancel m) ∧
        dispatch explain frame = .call (.cancel m.generationId)) := by
  have hmismatch := decode_mismatch_iff explain frame
  cases hdecode : decode explain frame with
  | error err =>
    rw [hdecode] at hmismatch
    cases hv : err.versionMismatch with
    | true =>
      refine .inl ⟨hmismatch.mp ⟨err, rfl, hv⟩, err.text, ?_⟩
      simp only [dispatch, hdecode, hv, if_true]
    | false =>
      refine .inr (.inl ⟨fun h => ?_, err.text, ?_⟩)
      · obtain ⟨_, heq, htrue⟩ := hmismatch.mpr h
        cases heq
        rw [hv] at htrue
        cases htrue
      · simp only [dispatch, hdecode, hv, Bool.false_eq_true, if_false]
  | ok msg =>
    have hnot : ¬Mismatched frame := by
      intro h
      obtain ⟨_, heq, _⟩ := hmismatch.mpr h
      rw [hdecode] at heq
      cases heq
    cases msg with
    | generate m => exact .inr (.inr (.inl ⟨hnot, m, rfl, by simp only [dispatch, hdecode]⟩))
    | cancel m => exact .inr (.inr (.inr ⟨hnot, m, rfl, by simp only [dispatch, hdecode]⟩))
    | _ =>
      refine .inr (.inl ⟨hnot, ?_⟩)
      simp only [dispatch, hdecode]
      exact ⟨_, rfl⟩

end Replies

end AetherForge
