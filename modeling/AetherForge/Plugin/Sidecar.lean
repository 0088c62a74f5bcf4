import AetherForge.Plugin.Panel

/-!
# The sidecar and the connection attempts

`FAetherForgeSidecarManager` launches the server process, watches it and terminates it; the editor
module tries to connect first, launches the sidecar when that fails, and retries from a one-shot
ticker while the process boots; the panel shows how far this is.  Processes exit and connections
break while the game thread is in the middle of a call, so every look at either comes after a
`Meanwhile`.

* `BringUp` — the manager, the client's socket, the module and the panel, if it is open, with the
  processes that run;
* `launch`, `watchdogTick`, `terminate` — the manager;
* `ensureBackend`, `tryConnect`, `handleConnectionError` — the module;
* `construct`, `onReconnectClicked`, `panelConnectionError` — the panel.

The client's queues are left out: they have a model of their own.
-/

namespace AetherForge.Plugin

open GoJson Operation StructJson

/-! ### State -/

/-- `EAetherForgeSidecarState`. -/
inductive SidecarState
  | notStarted
  | starting
  | running
  | dead
  | binaryMissing
  | stopped
  deriving DecidableEq

/-- `FAetherForgeSidecarManager`; processes are numbered in the order of their creation. -/
structure SidecarManager where
  processHandle : Option ℕ
  processId : ℕ
  lastPort : ℤ
  sidecarLogPath : String
  state : SidecarState
  lastError : String
  /-- `WatchdogHandle` is valid. -/
  watchdog : Bool

def SidecarManager.start : SidecarManager := ⟨none, 0, 0, "", .notStarted, "", false⟩

/-- Where the connection of a socket is. -/
inductive Link
  | connecting
  /-- `IWebSocket::IsConnected`. -/
  | open
  /-- It was open. -/
  | lost
  /-- It was never open, and will not be. -/
  | failed
  deriving DecidableEq

def Link.opened : Link → Bool
  | .open => true
  | .lost => true
  | _ => false

/-- What a connection can turn into. -/
def Link.turns : Link → Link → Bool
  | .connecting, _ => true
  | .open, .lost => true
  | link, link' => link = link'

/-- A socket; `announced` after its `OnConnected`. -/
structure Socket where
  number : ℕ
  link : Link
  announced : Bool

structure BringUp where
  /-- How many processes were created, and which of them run. -/
  processes : ℕ
  live : List ℕ
  manager : SidecarManager
  /-- The client's `Socket`, if it is valid, and how many were created. -/
  socket : Option Socket
  sockets : ℕ
  pendingHelloManifest : TMap WireManifestEntry
  connectAttemptsRemaining : ℤ
  /-- `ReconnectTickerHandle` is valid. -/
  reconnectTicker : Bool
  forge : EditorModule
  /-- The panel, while its tab is open. -/
  panel : Option Panel
  /-- The module is loaded. -/
  loaded : Bool

/-- What is shown. -/
inductive BringUpAction
  /-- `OnStateChanged`. -/
  | stateChanged (state : SidecarState)
  | processCreated (process : ℕ)
  | processTerminated (process : ℕ)
  | socketCreated (socket : ℕ)
  | helloSent (socket : ℕ) (manifest : TMap WireManifestEntry)
  | forge (a : ModuleAction)

abbrev BringUpOp := Op BringUp BringUpAction

namespace BringUp

/-- `StartupModule`. -/
def start : BringUp :=
  ⟨0, [], .start, none, 0, .empty, 0, false, .start, none, true⟩

/-! ### The surroundings -/

/-- What other processes and threads do between two steps of the game thread: processes exit, and
the connection of the present socket turns. -/
structure Meanwhile where
  exited : ℕ → Bool
  link : Option Link

def turned (link : Option Link) (s : Socket) : Socket :=
  match link with
  | none => s
  | some link => if s.link.turns link then { s with link := link } else s

def meanwhile (w : Meanwhile) : BringUpOp := fun b =>
  ({ b with
    live := b.live.filter (!w.exited ·)
    socket := b.socket.map (turned w.link) }, [])

/-- `IsRunning`. -/
def isRunning (b : BringUp) : Bool := b.manager.processHandle.any (b.live.contains ·)

/-- The client's `IsConnected`. -/
def isConnected (b : BringUp) : Bool := b.socket.any (·.link = .open)

/-- `IsConnectRetryPending`. -/
def isConnectRetryPending (b : BringUp) : Bool :=
  b.reconnectTicker || decide (0 < b.connectAttemptsRemaining)

/-! ### The parts -/

def change (f : BringUp → BringUp) : BringUpOp := fun b => (f b, [])

def changeManager (f : SidecarManager → SidecarManager) : BringUpOp :=
  change fun b => { b with manager := f b.manager }

/-- What the panel does, if there is one. -/
def withPanel (f : Panel → Panel) : BringUpOp := change fun b => { b with panel := b.panel.map f }

def withForge (f : ModuleOp) : BringUpOp := fun b =>
  ({ b with forge := (f b.forge).1 }, (f b.forge).2.map .forge)

/-- What the panel does together with the module. -/
def withEditor (f : EditorOp) : BringUpOp := fun b =>
  match b.panel with
  | none => (b, [])
  | some p =>
    ({ b with panel := some (f ⟨p, b.forge⟩).1.panel, forge := (f ⟨p, b.forge⟩).1.forge },
      (f ⟨p, b.forge⟩).2.map .forge)

/-- A look at the state after what has happened meanwhile. -/
def look (w : Meanwhile) (f : BringUp → BringUpOp) : BringUpOp :=
  seq (meanwhile w) fun b => f b b

/-! ### The manager -/

/-- The panel's `HandleSidecarStateChanged`, with the manager's `GetLastError`. -/
def panelSidecarStateChanged (p : Panel) (lastError : String) : SidecarState → Panel
  | .starting => p.setState .startingSidecar
  | .running => p
  | .dead => p.enterErrorState lastError
  | .binaryMissing => p.enterErrorState lastError
  | .stopped => p.setState .disconnected
  | .notStarted => p

/-- `SetState`: a change is broadcast. -/
def setSidecarState (state : SidecarState) : BringUpOp := fun b =>
  if b.manager.state = state then (b, [])
  else
    ({ b with
      manager := { b.manager with state := state }
      panel := b.panel.map (panelSidecarStateChanged · b.manager.lastError state) },
      [.stateChanged state])

def fail (state : SidecarState) (lastError : SidecarManager → String) : BringUpOp :=
  seq (changeManager fun m => { m with lastError := lastError m }) (setSidecarState state)

/-- What a launch gets from the plugin manager, the file system and the platform. -/
structure LaunchAnswers where
  /-- `GetSidecarBinaryPath`, and whether there is such a file. -/
  binaryPath : String
  binaryExists : Bool
  sidecarLogPath : String
  /-- The process id that comes with a valid handle. -/
  processId : Option ℕ

def binaryMissingError (binaryPath : String) : String :=
  "Sidecar binary not found at '" ++ binaryPath ++
    "'. Build the Go service and copy it there (see plugin README)."

def launchError (binaryPath : String) : String :=
  "Failed to launch sidecar process '" ++ binaryPath ++ "'."

def exitError (processId : ℕ) (sidecarLogPath : String) (lastPort : ℤ) : String :=
  "Sidecar process (pid " ++ toString processId ++ ") exited unexpectedly — see " ++
    sidecarLogPath ++ " (common cause: port " ++ toString lastPort ++
    " already in use by another process)."

/-- `CreateProc` with a valid handle. -/
def createProc (processId : ℕ) : BringUpOp := fun b =>
  ({ b with
    processes := b.processes + 1
    live := b.processes :: b.live
    manager := { b.manager with processHandle := some b.processes, processId := processId } },
    [.processCreated b.processes])

/-- `Launch` after its look at a process that may be running. -/
def startProcess (port : ℤ) (ans : LaunchAnswers) : BringUpOp :=
  seq (changeManager fun m => { m with processHandle := none, lastError := "" })
    (seq (setSidecarState .starting)
      (if ans.binaryPath = "" ∨ ans.binaryExists = false then
        fail .binaryMissing fun _ => binaryMissingError ans.binaryPath
      else
        seq
          (changeManager fun m =>
            { m with lastPort := port, sidecarLogPath := ans.sidecarLogPath })
          (match ans.processId with
          | none => fail .dead fun _ => launchError ans.binaryPath
          | some processId =>
            seq (createProc processId)
              (seq (setSidecarState .running)
                (changeManager fun m => { m with watchdog := true })))))

/-- `Launch`. -/
def launch (port : ℤ) (ans : LaunchAnswers) (w : Meanwhile) : BringUpOp :=
  look w fun b => if b.isRunning then skip else startProcess port ans

/-- `WatchdogTick`. -/
def watchdogTick (w : Meanwhile) : BringUpOp :=
  look w fun b =>
    if b.manager.state = .running ∧ b.isRunning = false then
      fail .dead fun m => exitError m.processId m.sidecarLogPath m.lastPort
    else skip

/-- `TerminateProc`, of a process that is running. -/
def terminateProc (process : ℕ) : BringUpOp := fun b =>
  if b.isRunning then ({ b with live := b.live.erase process }, [.processTerminated process])
  else (b, [])

/-- `Terminate`. -/
def terminate (w : Meanwhile) : BringUpOp :=
  seq (changeManager fun m => { m with watchdog := false })
    (look w fun b =>
      match b.manager.processHandle with
      | none => skip
      | some process =>
        seq (terminateProc process)
          (seq (changeManager fun m => { m with processHandle := none, processId := 0 })
            (setSidecarState .stopped)))

/-! ### Connection attempts -/

def SidecarPort : ℤ := 8080

def MaxConnectAttempts : ℤ := 10

/-- What an attempt meets: what happens before each look at the connection, and the manifest. -/
structure AttemptAnswers where
  ensure : Meanwhile
  attempt : Meanwhile
  connect : Meanwhile
  manifest : ManifestAnswers

/-- The client's `Connect`. -/
def connectSocket (w : Meanwhile) (manifest : TMap WireManifestEntry) : BringUpOp :=
  look w fun b =>
    if b.isConnected then skip
    else fun b =>
      ({ b with
        pendingHelloManifest := manifest
        socket := some ⟨b.sockets, .connecting, false⟩
        sockets := b.sockets + 1 }, [.socketCreated b.sockets])

/-- `TryConnect`. -/
def tryConnect (ans : AttemptAnswers) : BringUpOp :=
  look ans.attempt fun b =>
    if b.isConnected then skip
    else
      seq (change fun b => { b with connectAttemptsRemaining := b.connectAttemptsRemaining - 1 })
        (connectSocket ans.connect (buildWireManifest (getOrLoadManifest ans.manifest)))

/-- `EnsureBackend`. -/
def ensureBackend (ans : AttemptAnswers) : BringUpOp :=
  look ans.ensure fun b =>
    if b.isConnected then skip
    else
      seq (change fun b => { b with connectAttemptsRemaining := MaxConnectAttempts })
        (tryConnect ans)

/-- The ticker is replaced by one that has not fired. -/
def scheduleRetry : BringUpOp := change fun b => { b with reconnectTicker := true }

/-- What the handlers of a failed connection meet. -/
structure FailureAnswers where
  /-- The module's handler runs before the panel's. -/
  moduleFirst : Bool
  sidecar : Meanwhile
  launching : Meanwhile
  launched : Meanwhile
  panel : Meanwhile
  launch : LaunchAnswers

/-- The module's `HandleConnectionError`. -/
def handleConnectionError (ans : FailureAnswers) : BringUpOp := fun b =>
  if 0 < b.connectAttemptsRemaining then
    look ans.sidecar (fun b =>
      if b.isRunning then scheduleRetry
      else
        seq (launch SidecarPort ans.launch ans.launching)
          (look ans.launched fun b => if b.isRunning then scheduleRetry else skip)) b
  else (b, [])

/-- The panel's `HandleConnectionError`. -/
def panelConnectionError (reason : String) (w : Meanwhile) : BringUpOp :=
  look w fun b =>
    if b.isRunning && b.isConnectRetryPending then skip
    else withPanel (·.enterErrorState ("Connection failed: " ++ reason))

/-! ### Socket callbacks -/

/-- Events of a socket that is not the present one are ignored. -/
def fromSocket (number : ℕ) (f : BringUpOp) : BringUpOp := fun b =>
  if b.socket.any (·.number = number) then f b else (b, [])

def handleSocketConnected (number : ℕ) : BringUpOp :=
  fromSocket number
    (seq
      (fun b =>
        ({ b with socket := b.socket.map fun s => { s with announced := true } },
          [.helloSent number b.pendingHelloManifest]))
      (withPanel Panel.handleConnected))

/-- `OnConnectionError`, whose handlers run in either order. -/
def broadcastConnectionError (reason : String) (ans : FailureAnswers) : BringUpOp :=
  if ans.moduleFirst then
    seq (handleConnectionError ans) (panelConnectionError reason ans.panel)
  else seq (panelConnectionError reason ans.panel) (handleConnectionError ans)

def handleSocketConnectionError (number : ℕ) (reason : String) (ans : FailureAnswers) :
    BringUpOp :=
  fromSocket number
    (seq (change fun b => { b with socket := none }) (broadcastConnectionError reason ans))

def handleSocketClosed (number : ℕ) (completed : ℕ → Bool) : BringUpOp :=
  fromSocket number
    (seq (change fun b => { b with socket := none })
      (seq (withForge (handleClosed completed)) (withPanel Panel.handleClosed)))

/-! ### The panel's tab -/

/-- `Construct`, with what it looks at first. -/
def construct (w : Meanwhile) (ans : AttemptAnswers) : BringUpOp :=
  seq (change fun b => { b with panel := some .start })
    (look w fun b =>
      if b.isConnected then withPanel (·.setState .connectedIdle)
      else seq (withPanel (·.setState .startingSidecar)) (ensureBackend ans))

def onReconnectClicked (ans : AttemptAnswers) : BringUpOp :=
  seq (withPanel (·.setState .startingSidecar)) (ensureBackend ans)

/-! ### Shutdown -/

/-- `ShutdownModule`. -/
def shutdownModule (completed : ℕ → Bool) (w : Meanwhile) : BringUpOp :=
  seq (change fun b => { b with reconnectTicker := false, socket := none })
    (seq (withForge (onSpawner none (shutdown completed)))
      (seq (terminate w) (change fun b => { b with loaded := false })))

end BringUp

end AetherForge.Plugin
