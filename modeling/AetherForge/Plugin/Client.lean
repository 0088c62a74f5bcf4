import AetherForge.Library.Transition
import AetherForge.Plugin.Messages

/-!
# The WebSocket client

`FAetherForgeClient`: the game thread puts raw frames into one queue, background tasks parse them
into a second one, and a ticker on the game thread broadcasts the parsed messages.  Every operation
on a queue or on the flag `bParseWorkerActive` is one step, and so is every broadcast; the steps of
the game thread and of any number of tasks are interleaved.  The callbacks of the sockets, the
ticker and the caller's own calls all run on the game thread, one after the other.

* `stepClient` — one step;
* `acceptedFrames`, `parsedFrames`, `broadcasts` — what a run shows of the frames.

Sockets are numbered in the order of their creation, and a frame keeps the number of the socket
that raised it: the client itself looks at it only when the frame arrives.
-/

namespace AetherForge.Plugin

open Transition

/-! ### State -/

/-- A raw frame, with the socket it came from. -/
structure Frame where
  socket : ℕ
  text : String
  deriving DecidableEq

/-- A parsed message, with the socket its frame came from. -/
structure Inbound where
  socket : ℕ
  message : ServerMessage

/-- Where the game thread is. -/
inductive GameThread
  | idle
  /-- In `HandleRawMessage`, after `RawInbound.Enqueue`. -/
  | compareExchange
  /-- There, with the flag taken, before `AsyncTask`. -/
  | asyncTask
  /-- In the loop of `DispatchTick`. -/
  | dispatching
  deriving DecidableEq

/-- Where a background task is in `ParseWorker`. -/
inductive ParseWorker
  | scheduled
  | dequeue
  | parse (frame : Frame)
  | enqueue (parsed : Inbound)
  /-- Before `bParseWorkerActive.store(false)`. -/
  | clear
  /-- Before `RawInbound.IsEmpty()`. -/
  | recheck
  /-- Before the compare-exchange that follows it. -/
  | acquire
  | finished

structure Client where
  /-- `Socket`, if it is valid. -/
  socket : Option ℕ
  /-- How many sockets were created. -/
  sockets : ℕ
  pendingHelloManifest : TMap WireManifestEntry
  rawInbound : List Frame
  parsedInbound : List Inbound
  parseWorkerActive : Bool
  gameThread : GameThread
  workers : List ParseWorker

def Client.start : Client := ⟨none, 0, .empty, [], [], false, .idle, []⟩

/-! ### Steps -/

/-- What happens next: a call or a callback on the game thread, when it is idle, or one step of
the game thread or of a task that is under way. -/
inductive ClientEvent
  /-- `Connect`; whether the present socket, if any, is connected. -/
  | connect (connected : Bool) (manifest : TMap WireManifestEntry)
  | disconnect
  | socketConnected (socket : ℕ)
  | socketConnectionError (socket : ℕ) (error : String)
  | socketClosed (socket : ℕ) (statusCode : ℤ) (reason : String)
  | rawMessage (socket : ℕ) (message : String)
  | dispatchTick
  | gameThread
  | worker (k : ℕ)

/-- What a step shows: a frame accepted, a frame parsed, a message sent, a delegate broadcast. -/
inductive ClientAction
  | accepted (frame : Frame)
  | parsed (frame : Frame)
  | helloSent (socket : ℕ) (manifest : TMap WireManifestEntry)
  | onConnected (socket : ℕ)
  | onConnectionError (socket : ℕ) (reason : String)
  | onClosed (socket : ℕ) (statusCode : ℤ) (reason : String)
  /-- The delegate of the message's type. -/
  | onMessage (m : Inbound)

/-- A socket callback: events of a socket that is not the present one are ignored. -/
def Client.fromSocket (c : Client) (socket : ℕ) (handle : Client × List ClientAction) :
    Client × List ClientAction :=
  if c.socket = some socket then handle else (c, [])

section Steps

variable (parse : String → ServerMessage)

/-- `ParseServerMessage` on a frame. -/
def parseFrame (frame : Frame) : Inbound := ⟨frame.socket, parse frame.text⟩

/-- A call or a callback on the idle game thread. -/
def Client.handle (c : Client) : ClientEvent → Option (Client × List ClientAction)
  | .connect connected manifest =>
    if c.socket.isSome && connected then some (c, [])
    else
      some ({ c with
        socket := some c.sockets
        sockets := c.sockets + 1
        pendingHelloManifest := manifest }, [])
  | .disconnect => some ({ c with socket := none }, [])
  | .socketConnected socket =>
    some (c.fromSocket socket
      (c, [.helloSent socket c.pendingHelloManifest, .onConnected socket]))
  | .socketConnectionError socket error =>
    some (c.fromSocket socket ({ c with socket := none }, [.onConnectionError socket error]))
  | .socketClosed socket statusCode reason =>
    some (c.fromSocket socket ({ c with socket := none }, [.onClosed socket statusCode reason]))
  | .rawMessage socket message =>
    some (c.fromSocket socket
      ({ c with
        rawInbound := c.rawInbound ++ [⟨socket, message⟩]
        gameThread := .compareExchange }, [.accepted ⟨socket, message⟩]))
  | .dispatchTick => some ({ c with gameThread := .dispatching }, [])
  | .gameThread => none
  | .worker _ => none

/-- The game thread goes on. -/
def Client.stepGameThread (c : Client) : Option (Client × List ClientAction) :=
  match c.gameThread with
  | .idle => none
  | .compareExchange =>
    if c.parseWorkerActive then some ({ c with gameThread := .idle }, [])
    else some ({ c with parseWorkerActive := true, gameThread := .asyncTask }, [])
  | .asyncTask =>
    some ({ c with workers := c.workers ++ [.scheduled], gameThread := .idle }, [])
  | .dispatching =>
    match c.parsedInbound with
    | [] => some ({ c with gameThread := .idle }, [])
    | m :: rest => some ({ c with parsedInbound := rest }, [.onMessage m])

/-- Task `k` is now at `w`. -/
def Client.setWorker (c : Client) (k : ℕ) (w : ParseWorker) : Client :=
  { c with workers := c.workers.set k w }

/-- Task `k`, which is at `w`, goes on. -/
def Client.stepWorker (c : Client) (k : ℕ) :
    ParseWorker → Option (Client × List ClientAction)
  | .scheduled => some (c.setWorker k .dequeue, [])
  | .dequeue =>
    match c.rawInbound with
    | [] => some (c.setWorker k .clear, [])
    | frame :: rest => some ({ c.setWorker k (.parse frame) with rawInbound := rest }, [])
  | .parse frame => some (c.setWorker k (.enqueue (parseFrame parse frame)), [.parsed frame])
  | .enqueue parsed =>
    some ({ c.setWorker k .dequeue with parsedInbound := c.parsedInbound ++ [parsed] }, [])
  | .clear => some ({ c.setWorker k .recheck with parseWorkerActive := false }, [])
  | .recheck =>
    some (c.setWorker k (if c.rawInbound.isEmpty then .finished else .acquire), [])
  | .acquire =>
    if c.parseWorkerActive then some (c.setWorker k .finished, [])
    else some ({ c.setWorker k .dequeue with parseWorkerActive := true }, [])
  | .finished => none

/-- One step of the client. -/
def stepClient : Step Client ClientEvent ClientAction := fun c event =>
  match event with
  | .gameThread => c.stepGameThread
  | .worker k => c.workers[k]?.bind (c.stepWorker parse k)
  | event => if c.gameThread = .idle then c.handle event else none

end Steps

/-! ### What a run shows -/

def ClientAction.accepted? : ClientAction → Option Frame
  | .accepted frame => some frame
  | _ => none

def ClientAction.parsed? : ClientAction → Option Frame
  | .parsed frame => some frame
  | _ => none

def ClientAction.message? : ClientAction → Option Inbound
  | .onMessage m => some m
  | _ => none

/-- The frames accepted, in order of arrival. -/
def acceptedFrames (os : List ClientAction) : List Frame := os.filterMap ClientAction.accepted?

/-- The frames parsed, in order. -/
def parsedFrames (os : List ClientAction) : List Frame := os.filterMap ClientAction.parsed?

/-- The messages broadcast, in order. -/
def broadcasts (os : List ClientAction) : List Inbound := os.filterMap ClientAction.message?

@[simp] theorem acceptedFrames_append (os os' : List ClientAction) :
    acceptedFrames (os ++ os') = acceptedFrames os ++ acceptedFrames os' := List.filterMap_append

@[simp] theorem parsedFrames_append (os os' : List ClientAction) :
    parsedFrames (os ++ os') = parsedFrames os ++ parsedFrames os' := List.filterMap_append

@[simp] theorem broadcasts_append (os os' : List ClientAction) :
    broadcasts (os ++ os') = broadcasts os ++ broadcasts os' := List.filterMap_append

@[simp] theorem acceptedFrames_singleton (a : ClientAction) :
    acceptedFrames [a] = a.accepted?.toList := by
  cases h : a.accepted? <;> simp [acceptedFrames, h]

@[simp] theorem parsedFrames_singleton (a : ClientAction) :
    parsedFrames [a] = a.parsed?.toList := by
  cases h : a.parsed? <;> simp [parsedFrames, h]

@[simp] theorem broadcasts_singleton (a : ClientAction) : broadcasts [a] = a.message?.toList := by
  cases h : a.message? <;> simp [broadcasts, h]

end AetherForge.Plugin
