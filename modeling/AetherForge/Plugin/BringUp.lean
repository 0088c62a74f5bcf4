import AetherForge.Plugin.Sidecar
import AetherForge.Plugin.Tracking

/-!
# Bringing the sidecar up

The manager, the client, the module and the panel, as one system: every callback and every press of
a button is a step, and so is what happens to processes and connections between them.

* `bringUpStep` — one callback, one press of a button, or one turn of the surroundings;
* `run_keeps` — what every event keeps, every run keeps;
* `sidecar_not_leaked` — at most one process runs, the one whose handle the manager has, and none
  after the shutdown.
-/

namespace AetherForge.Plugin

open GoJson Operation StructJson Transition

namespace BringUp

/-! ### Runs -/

/-- What happens next on the game thread, or off it. -/
inductive Event
  | construct (w : Meanwhile) (ans : AttemptAnswers)
  /-- The tab is closed. -/
  | destruct
  | reconnect (ans : AttemptAnswers)
  /-- The user types or presses a button, or a message is broadcast. -/
  | panel (event : PanelEvent)
  | socketConnected (number : ℕ)
  | socketConnectionError (number : ℕ) (reason : String) (ans : FailureAnswers)
  | socketClosed (number : ℕ) (completed : ℕ → Bool)
  | reconnectTicker (ans : AttemptAnswers)
  | watchdogTick (w : Meanwhile)
  | meanwhile (w : Meanwhile)
  | loaded (key : String) (ans : LoadAnswers)
  | spawnTick (world : Bool) (turns : List Turn)
  | shutdown (completed : ℕ → Bool) (w : Meanwhile)

/-- What a callback of a socket requires of it, when it is the present one. -/
def admits (b : BringUp) (number : ℕ) (requires : Socket → Bool) : Bool :=
  b.socket.all fun s => s.number ≠ number || requires s

/-- What the panel's part requires: a button is there and enabled. -/
def panelEnabled (b : BringUp) : PanelEvent → Bool
  | .typed _ _ _ => b.panel.isSome
  | .generate ans => b.panel.any isGenerateEnabled && ans.connected = b.isConnected
  | .newVariation _ _ ans => b.panel.any isGenerateEnabled && ans.connected = b.isConnected
  | .cancel _ _ => b.panel.any isCancelEnabled
  | .message _ _ _ => true

/-- A callback comes when it is registered; a socket connects or fails to, and closes after it was
open. -/
def Event.enabled (b : BringUp) : Event → Bool
  | .construct _ _ => b.loaded
  | .destruct => true
  | .reconnect _ => b.loaded && b.panel.any isReconnectVisible
  | .panel event => b.loaded && b.panelEnabled event
  | .socketConnected number => b.loaded && b.admits number fun s => s.link.opened && !s.announced
  | .socketConnectionError number _ _ => b.loaded && b.admits number fun s => !s.link.opened
  | .socketClosed number _ => b.loaded && b.admits number fun s => s.link.opened
  | .reconnectTicker _ => b.loaded && b.reconnectTicker
  | .watchdogTick _ => b.manager.watchdog
  | .meanwhile _ => true
  | .loaded _ _ => b.loaded
  | .spawnTick _ _ => b.loaded
  | .shutdown _ _ => b.loaded

section Steps

variable (T : TextFunctions)

/-- A message is handled by the module, and by the panel if there is one. -/
def panelOp : PanelEvent → BringUpOp
  | .message m requests completed =>
    seq (withForge (handleMessage requests completed m)) (withPanel (·.handleMessage T m))
  | event => withEditor (event.op T)

def Event.op : Event → BringUpOp
  | .construct w ans => BringUp.construct w ans
  | .destruct => change fun b => { b with panel := none }
  | .reconnect ans => onReconnectClicked ans
  | .panel event => panelOp T event
  | .socketConnected number => handleSocketConnected number
  | .socketConnectionError number reason ans => handleSocketConnectionError number reason ans
  | .socketClosed number completed => handleSocketClosed number completed
  | .reconnectTicker ans =>
    seq (change fun b => { b with reconnectTicker := false }) (tryConnect ans)
  | .watchdogTick w => BringUp.watchdogTick w
  | .meanwhile w => BringUp.meanwhile w
  | .loaded key ans => withForge (onSpawner none (onCategoryAssetLoaded key ans))
  | .spawnTick world turns => withForge (onSpawner none (Plugin.spawnTick world turns))
  | .shutdown completed w => shutdownModule completed w

/-- One callback, one press of a button, or one turn of the surroundings. -/
def bringUpStep : Step BringUp Event BringUpAction := fun b event =>
  if event.enabled b then some (event.op T b) else none

/-- A property of states that every enabled event keeps, every run keeps. -/
theorem run_keeps {I : BringUp → Prop}
    (hI : ∀ event : Event, Leads (fun b => I b ∧ event.enabled b = true) (event.op T) I)
    {events : List Event} {b c : BringUp} {os : List BringUpAction} (hb : I b)
    (h : exec (bringUpStep T) b events = some (c, os)) : I c := by
  refine exec_invariant (I := I) ?_ hb h
  intro b event b' o hb hstep
  obtain ⟨henabled, hop⟩ := Option.ite_none_right_eq_some.mp hstep
  have hnext := hI event b ⟨hb, henabled⟩
  rwa [Option.some.inj hop] at hnext

end Steps

/-! ### Processes -/

/-- The state of the manager, its handle and its error fit together. -/
def coherent (m : SidecarManager) : SidecarState → Prop
  | .notStarted => m.processHandle = none ∧ m.lastError = ""
  | .starting => False
  | .running => m.processHandle.isSome = true ∧ m.lastError = ""
  | .dead => m.lastError ≠ ""
  | .binaryMissing => m.processHandle = none ∧ m.lastError ≠ ""
  | .stopped => m.processHandle = none

/-- The processes, and what the manager knows of them. -/
structure Sound (b : BringUp) : Prop where
  created : ∀ p ∈ b.live, p < b.processes
  nodup : b.live.Nodup
  held : ∀ p ∈ b.live, b.manager.processHandle = some p
  watched : b.manager.processHandle.isSome = true → b.manager.watchdog = true
  coherent : coherent b.manager b.manager.state
  unloaded : b.loaded = false → b.live = []

section Processes

variable {b : BringUp}

/-- A manager without a running process has none to lose. -/
theorem live_nil (hheld : ∀ p ∈ b.live, b.manager.processHandle = some p)
    (hrunning : b.isRunning = false) : b.live = [] := by
  refine List.eq_nil_iff_forall_not_mem.mpr fun p hp => ?_
  rw [isRunning, hheld p hp, Option.any_some, List.contains_iff_mem.mpr hp] at hrunning
  cases hrunning

end Processes

/-! ### The manager's calls -/

section Manager

variable {b : BringUp}

theorem append_ne_empty {s : String} (h : s ≠ "") (t : String) : s ++ t ≠ "" := by
  intro heq
  have hlist := congrArg String.toList heq
  rw [String.toList_append, String.toList_eq_nil_iff.mpr rfl, List.append_eq_nil_iff] at hlist
  exact h (String.toList_eq_nil_iff.mp hlist.1)

theorem binaryMissingError_ne (binaryPath : String) : binaryMissingError binaryPath ≠ "" :=
  append_ne_empty (append_ne_empty (by decide) _) _

theorem launchError_ne (binaryPath : String) : launchError binaryPath ≠ "" :=
  append_ne_empty (append_ne_empty (by decide) _) _

theorem exitError_ne (processId : ℕ) (sidecarLogPath : String) (lastPort : ℤ) :
    exitError processId sidecarLogPath lastPort ≠ "" :=
  append_ne_empty (append_ne_empty (append_ne_empty (append_ne_empty (append_ne_empty
    (append_ne_empty (by decide) _) _) _) _) _) _

/-- **What a launch comes to**: a process that runs, under a panel that is starting, or an error
that the panel shows. -/
theorem startProcess_cases (port : ℤ) (ans : LaunchAnswers) (hstate : b.manager.state ≠ .starting) :
    (∃ m : SidecarManager, m.processHandle = some b.processes ∧ m.state = .running ∧
        m.lastError = "" ∧ m.watchdog = true ∧
        (startProcess port ans b).1 = { b with
          processes := b.processes + 1
          live := b.processes :: b.live
          manager := m
          panel := b.panel.map (·.setState .startingSidecar) }) ∨
      ∃ m : SidecarManager, m.processHandle = none ∧ (m.state = .dead ∨ m.state = .binaryMissing) ∧
        m.lastError ≠ "" ∧
        (startProcess port ans b).1 = { b with
          manager := m
          panel := b.panel.map (·.enterErrorState m.lastError) } := by
  obtain ⟨binaryPath, binaryExists, sidecarLogPath, processId⟩ := ans
  by_cases hmissing : binaryPath = "" ∨ binaryExists = false
  · refine .inr ⟨⟨none, b.manager.processId, b.manager.lastPort, b.manager.sidecarLogPath,
      .binaryMissing, binaryMissingError binaryPath, b.manager.watchdog⟩, rfl, .inr rfl,
      binaryMissingError_ne binaryPath, ?_⟩
    simp only [startProcess, fail, seq, changeManager, change, setSidecarState, hmissing, hstate,
      if_true, if_false, reduceCtorEq]
    cases b.panel <;> rfl
  · cases processId with
    | none =>
      refine .inr ⟨⟨none, b.manager.processId, port, sidecarLogPath, .dead, launchError binaryPath,
        b.manager.watchdog⟩, rfl, .inl rfl, launchError_ne binaryPath, ?_⟩
      simp only [startProcess, fail, seq, changeManager, change, setSidecarState, hmissing,
        hstate, if_false, reduceCtorEq]
      cases b.panel <;> rfl
    | some processId =>
      refine .inl ⟨⟨some b.processes, processId, port, sidecarLogPath, .running, "", true⟩, rfl,
        rfl, rfl, rfl, ?_⟩
      simp only [startProcess, seq, changeManager, change, setSidecarState, createProc, hmissing,
        hstate, if_false, reduceCtorEq]
      cases b.panel <;> rfl

/-- `Launch` never leaves the manager in `Starting`. -/
theorem Sound.starting_ne (h : Sound b) : b.manager.state ≠ .starting := by
  intro hstarting
  have hcoherent := h.coherent
  rw [hstarting] at hcoherent
  exact hcoherent

/-- A launch leaves a sound manager when no process runs. -/
theorem startProcess_sound (port : ℤ) (ans : LaunchAnswers) (h : Sound b)
    (hloaded : b.loaded = true) (hlive : b.live = []) : Sound (startProcess port ans b).1 := by
  rcases startProcess_cases port ans h.starting_ne with
    ⟨m, hhandle, hrunning, herror, hwatchdog, hc⟩ | ⟨m, hhandle, hfailed, herror, hc⟩
  · rw [hc]
    have hnew : ∀ p ∈ b.processes :: b.live, p = b.processes := by
      intro p hp
      rw [hlive] at hp
      exact List.mem_singleton.mp hp
    refine ⟨fun p hp => ?_, by simp [hlive], fun p hp => ?_, fun _ => hwatchdog, ?_,
      by simp [hloaded]⟩
    · rw [hnew p hp]
      exact Nat.lt_succ_self _
    · rw [hnew p hp]
      exact hhandle
    · simp only [hrunning]
      exact ⟨by rw [hhandle]; rfl, herror⟩
  · rw [hc]
    refine ⟨by simp [hlive], by simp [hlive], by simp [hlive], ?_, ?_, fun _ => hlive⟩
    · intro hsome
      rw [hhandle] at hsome
      cases hsome
    · rcases hfailed with hdead | hmissing
      · simp only [hdead]
        exact herror
      · simp only [hmissing]
        exact ⟨hhandle, herror⟩

/-! ### What leaves the manager alone -/

/-- The manager is left alone, and processes do nothing but exit. -/
structure OnlyExits (b : BringUp) (_ : List BringUpAction) (c : BringUp) : Prop where
  processes : c.processes = b.processes
  live : c.live.Sublist b.live
  manager : c.manager = b.manager
  loaded : c.loaded = b.loaded

theorem onlyExits_composable : Composable OnlyExits := by
  refine ⟨fun b => ⟨rfl, .refl _, rfl, rfl⟩, fun b _ c _ d h h' => ⟨?_, ?_, ?_, ?_⟩⟩
  · exact h'.processes.trans h.processes
  · exact h'.live.trans h.live
  · exact h'.manager.trans h.manager
  · exact h'.loaded.trans h.loaded

theorem Sound.onlyExits {o : List BringUpAction} {c : BringUp} (h : Sound b)
    (hexits : OnlyExits b o c) : Sound c := by
  refine ⟨fun p hp => ?_, hexits.live.nodup h.nodup, fun p hp => ?_, ?_, ?_, fun hunloaded => ?_⟩
  · rw [hexits.processes]
    exact h.created p (hexits.live.subset hp)
  · rw [hexits.manager]
    exact h.held p (hexits.live.subset hp)
  · rw [hexits.manager]
    exact h.watched
  · rw [hexits.manager]
    exact h.coherent
  · have hlive := hexits.live
    rw [h.unloaded (hexits.loaded.symm.trans hunloaded)] at hlive
    exact List.sublist_nil.mp hlive

theorem meanwhile_onlyExits (w : Meanwhile) : Meets OnlyExits (meanwhile w) :=
  fun _ => ⟨rfl, List.filter_sublist, rfl, rfl⟩

theorem look_onlyExits (w : Meanwhile) {f : BringUp → BringUpOp}
    (h : ∀ b, Meets OnlyExits (f b)) : Meets OnlyExits (look w f) :=
  meets_seq onlyExits_composable (meanwhile_onlyExits w) fun b => h b b

theorem withPanel_onlyExits (f : Panel → Panel) : Meets OnlyExits (withPanel f) :=
  fun _ => ⟨rfl, .refl _, rfl, rfl⟩

theorem withForge_onlyExits (f : ModuleOp) : Meets OnlyExits (withForge f) :=
  fun _ => ⟨rfl, .refl _, rfl, rfl⟩

theorem withEditor_onlyExits (f : EditorOp) : Meets OnlyExits (withEditor f) := by
  intro b
  unfold withEditor
  split <;> exact ⟨rfl, .refl _, rfl, rfl⟩

theorem scheduleRetry_onlyExits : Meets OnlyExits scheduleRetry := fun _ => ⟨rfl, .refl _, rfl, rfl⟩

theorem connectSocket_onlyExits (w : Meanwhile) (manifest : TMap WireManifestEntry) :
    Meets OnlyExits (connectSocket w manifest) := by
  refine look_onlyExits w fun b => ?_
  split
  · exact meets_skip onlyExits_composable
  · exact fun _ => ⟨rfl, .refl _, rfl, rfl⟩

theorem tryConnect_onlyExits (ans : AttemptAnswers) : Meets OnlyExits (tryConnect ans) := by
  refine look_onlyExits _ fun b => ?_
  split
  · exact meets_skip onlyExits_composable
  · exact meets_seq onlyExits_composable (fun _ => ⟨rfl, .refl _, rfl, rfl⟩)
      (connectSocket_onlyExits _ _)

theorem ensureBackend_onlyExits (ans : AttemptAnswers) : Meets OnlyExits (ensureBackend ans) := by
  refine look_onlyExits _ fun b => ?_
  split
  · exact meets_skip onlyExits_composable
  · exact meets_seq onlyExits_composable (fun _ => ⟨rfl, .refl _, rfl, rfl⟩)
      (tryConnect_onlyExits ans)

theorem construct_onlyExits (w : Meanwhile) (ans : AttemptAnswers) :
    Meets OnlyExits (construct w ans) := by
  refine meets_seq onlyExits_composable (fun _ => ⟨rfl, .refl _, rfl, rfl⟩)
    (look_onlyExits _ fun b => ?_)
  split
  · exact withPanel_onlyExits _
  · exact meets_seq onlyExits_composable (withPanel_onlyExits _) (ensureBackend_onlyExits ans)

theorem panelConnectionError_onlyExits (reason : String) (w : Meanwhile) :
    Meets OnlyExits (panelConnectionError reason w) := by
  refine look_onlyExits _ fun b => ?_
  split
  · exact meets_skip onlyExits_composable
  · exact withPanel_onlyExits _

theorem fromSocket_onlyExits (number : ℕ) {f : BringUpOp} (h : Meets OnlyExits f) :
    Meets OnlyExits (fromSocket number f) := by
  intro b
  unfold fromSocket
  split
  · exact h b
  · exact onlyExits_composable.refl b

theorem panelOp_onlyExits (T : TextFunctions) (event : PanelEvent) :
    Meets OnlyExits (panelOp T event) := by
  cases event with
  | message m requests completed =>
    exact meets_seq onlyExits_composable (withForge_onlyExits _) (withPanel_onlyExits _)
  | _ => exact withEditor_onlyExits _

/-! ### Every event -/

/-- A look, and what is done on what it finds. -/
theorem look_sound (w : Meanwhile) {f : BringUp → BringUpOp} {b : BringUp} (h : Sound b)
    (hf : ∀ c, Sound c → c.loaded = b.loaded → Sound (f c c).1) : Sound (look w f b).1 :=
  hf _ (h.onlyExits (meanwhile_onlyExits w b)) rfl

theorem launch_sound (port : ℤ) (ans : LaunchAnswers) (w : Meanwhile) (h : Sound b)
    (hloaded : b.loaded = true) : Sound (launch port ans w b).1 := by
  refine look_sound w h fun c hc hsame => ?_
  split
  · exact hc
  · rename_i hrunning
    exact startProcess_sound port ans hc (hsame.trans hloaded)
      (live_nil hc.held (Bool.not_eq_true _ ▸ hrunning))

theorem handleConnectionError_sound (ans : FailureAnswers) (h : Sound b)
    (hloaded : b.loaded = true) : Sound (handleConnectionError ans b).1 := by
  unfold handleConnectionError
  split
  · refine look_sound _ h fun c hc hsame => ?_
    split
    · exact hc.onlyExits (scheduleRetry_onlyExits c)
    · refine look_sound (f := fun b => if b.isRunning then scheduleRetry else skip) ans.launched
        (launch_sound SidecarPort ans.launch ans.launching hc (hsame.trans hloaded))
        fun d hd _ => ?_
      split
      · exact hd.onlyExits (scheduleRetry_onlyExits d)
      · exact hd
  · exact h

theorem broadcastConnectionError_sound (reason : String) (ans : FailureAnswers) (h : Sound b)
    (hloaded : b.loaded = true) : Sound (broadcastConnectionError reason ans b).1 := by
  have hpanel : ∀ c, Sound c → Sound (panelConnectionError reason ans.panel c).1 :=
    fun c hc => hc.onlyExits (panelConnectionError_onlyExits reason ans.panel c)
  unfold broadcastConnectionError
  split
  · exact hpanel _ (handleConnectionError_sound ans h hloaded)
  · exact handleConnectionError_sound ans (hpanel _ h)
      ((panelConnectionError_onlyExits reason ans.panel _).loaded.trans hloaded)

theorem handleSocketConnectionError_sound (number : ℕ) (reason : String) (ans : FailureAnswers)
    (h : Sound b) (hloaded : b.loaded = true) :
    Sound (handleSocketConnectionError number reason ans b).1 := by
  unfold handleSocketConnectionError fromSocket
  split
  · exact broadcastConnectionError_sound reason ans
      (b := { b with socket := none }) (h.onlyExits (o := []) ⟨rfl, .refl _, rfl, rfl⟩) hloaded
  · exact h

theorem watchdogTick_sound (w : Meanwhile) (h : Sound b) : Sound (watchdogTick w b).1 := by
  refine look_sound w h fun c hc _ => ?_
  split
  · rename_i hdead
    have hstate : c.manager.state ≠ .dead := by
      rw [hdead.1]
      intro heq
      cases heq
    simp only [fail, seq, changeManager, change, setSidecarState, hstate, if_false]
    exact ⟨hc.created, hc.nodup, hc.held, hc.watched, exitError_ne _ _ _, hc.unloaded⟩
  · exact hc

/-- `TerminateProc` leaves no process running. -/
theorem terminateProc_live {process : ℕ} (hnodup : b.live.Nodup)
    (hheld : ∀ p ∈ b.live, b.manager.processHandle = some p)
    (hhandle : b.manager.processHandle = some process) :
    (terminateProc process b).1 = { b with live := [] } := by
  unfold terminateProc
  split
  · have herase : b.live.erase process = [] := by
      refine List.eq_nil_iff_forall_not_mem.mpr fun p hp => ?_
      have hsame := hhandle.symm.trans (hheld p (List.mem_of_mem_erase hp))
      rw [Option.some.inj hsame] at hp
      exact hnodup.not_mem_erase hp
    rw [herase]
  · rename_i hrunning
    rw [← live_nil hheld (Bool.not_eq_true _ ▸ hrunning)]

/-- After `Terminate` no process runs. -/
theorem terminate_sound (w : Meanwhile) (h : Sound b) :
    Sound (terminate w b).1 ∧ (terminate w b).1.live = [] := by
  have hsound : Sound (meanwhile w b).1 := h.onlyExits (meanwhile_onlyExits w b)
  cases hhandle : b.manager.processHandle with
  | none =>
    have hlive : (meanwhile w b).1.live = [] := by
      refine List.eq_nil_iff_forall_not_mem.mpr fun p hp => ?_
      have hheld : b.manager.processHandle = some p := hsound.held p hp
      rw [hhandle] at hheld
      cases hheld
    have hc : (terminate w b).1 = { (meanwhile w b).1 with
        manager := { b.manager with watchdog := false } } := by
      simp only [terminate, seq, look, changeManager, change, meanwhile, hhandle]
      rfl
    rw [hc]
    refine ⟨⟨hsound.created, hsound.nodup, hsound.held, fun hsome => ?_, ?_, fun _ => hlive⟩,
      hlive⟩
    · simp only [hhandle, Option.isSome_none, Bool.false_eq_true] at hsome
    · have hcoherent := h.coherent
      revert hcoherent
      cases b.manager.state <;> exact id
  | some process =>
    have hstate : b.manager.state ≠ .stopped := by
      intro hstopped
      have hcoherent := h.coherent
      rw [hstopped] at hcoherent
      exact absurd (hhandle.symm.trans hcoherent) (by simp)
    have hkilled := terminateProc_live
      (b := { (meanwhile w b).1 with manager := { b.manager with watchdog := false } })
      hsound.nodup hsound.held hhandle
    have hc : (terminate w b).1 = { (meanwhile w b).1 with
        live := []
        manager := { b.manager with
          watchdog := false, processHandle := none, processId := 0, state := .stopped }
        panel := b.panel.map (·.setState .disconnected) } := by
      simp only [meanwhile, hhandle] at hkilled
      simp only [terminate, seq, look, changeManager, change, meanwhile, hhandle, hkilled,
        setSidecarState, hstate, if_false]
      rfl
    rw [hc]
    exact ⟨⟨by simp, .nil, by simp, by simp, rfl, fun _ => rfl⟩, rfl⟩

/-- **Every event** keeps the manager sound. -/
theorem event_sound (T : TextFunctions) (event : Event) :
    Leads (fun b => Sound b ∧ event.enabled b = true) (event.op T) Sound := by
  rintro b ⟨h, henabled⟩
  cases event with
  | construct w ans => exact h.onlyExits (construct_onlyExits w ans b)
  | destruct => exact h.onlyExits (o := []) ⟨rfl, .refl _, rfl, rfl⟩
  | reconnect ans =>
    exact h.onlyExits (meets_seq onlyExits_composable (withPanel_onlyExits _)
      (ensureBackend_onlyExits ans) b)
  | panel event => exact h.onlyExits (panelOp_onlyExits T event b)
  | socketConnected number =>
    exact h.onlyExits (fromSocket_onlyExits number (meets_seq onlyExits_composable
      (fun _ => ⟨rfl, .refl _, rfl, rfl⟩) (withPanel_onlyExits _)) b)
  | socketConnectionError number reason ans =>
    exact handleSocketConnectionError_sound number reason ans h (Bool.and_eq_true_iff.mp henabled).1
  | socketClosed number completed =>
    exact h.onlyExits (fromSocket_onlyExits number (meets_seq onlyExits_composable
      (fun _ => ⟨rfl, .refl _, rfl, rfl⟩) (meets_seq onlyExits_composable (withForge_onlyExits _)
        (withPanel_onlyExits _))) b)
  | reconnectTicker ans =>
    exact h.onlyExits (meets_seq onlyExits_composable (fun _ => ⟨rfl, .refl _, rfl, rfl⟩)
      (tryConnect_onlyExits ans) b)
  | watchdogTick w => exact watchdogTick_sound w h
  | meanwhile w => exact h.onlyExits (meanwhile_onlyExits w b)
  | loaded key ans => exact h.onlyExits (withForge_onlyExits _ b)
  | spawnTick world turns => exact h.onlyExits (withForge_onlyExits _ b)
  | shutdown completed w =>
    have hforge : Sound (withForge (onSpawner none (Plugin.shutdown completed))
        { b with reconnectTicker := false, socket := none }).1 :=
      h.onlyExits (o := []) ⟨rfl, .refl _, rfl, rfl⟩
    obtain ⟨hsound, hlive⟩ := terminate_sound w hforge
    exact ⟨hsound.created, hsound.nodup, hsound.held, hsound.watched, hsound.coherent,
      fun _ => hlive⟩

theorem start_sound : Sound start := by
  refine ⟨by simp [start], .nil, by simp [start], fun hsome => ?_, ⟨rfl, rfl⟩, fun _ => rfl⟩
  cases hsome

/-- **No process is leaked**: at most one runs, its handle is the manager's, and none runs once the
module is unloaded; the manager's error is empty while it is running, and not after it died. -/
theorem sidecar_not_leaked (T : TextFunctions) {events : List Event} {os : List BringUpAction}
    (h : exec (bringUpStep T) start events = some (b, os)) :
    b.live.length ≤ 1 ∧ (∀ p ∈ b.live, b.manager.processHandle = some p) ∧
      (b.loaded = false → b.live = []) ∧ coherent b.manager b.manager.state := by
  have hsound : Sound b := run_keeps T (event_sound T) start_sound h
  refine ⟨?_, hsound.held, hsound.unloaded, hsound.coherent⟩
  cases hhandle : b.manager.processHandle with
  | none =>
    have hlive : b.live = [] := live_nil hsound.held (by rw [isRunning, hhandle]; rfl)
    simp [hlive]
  | some process =>
    have hsubset : b.live ⊆ [process] := by
      intro p hp
      rw [Option.some.inj (hhandle.symm.trans (hsound.held p hp))]
      exact List.mem_singleton_self p
    exact (hsound.nodup.subperm hsubset).length_le

end Manager

/-! ### A run -/

/-- Nothing happens meanwhile. -/
def still : Meanwhile := ⟨fun _ => false, none⟩

def stillAttempt : AttemptAnswers := ⟨still, still, still, ⟨none, none⟩⟩

/-- The binary is there, and starts. -/
def startsUp : FailureAnswers :=
  ⟨true, still, still, still, still, ⟨"/bin/aetherforge-server", true, "sidecar.log", some 4711⟩⟩

/-- The panel is opened, nothing answers yet, the sidecar is launched, and a retry connects. -/
def bootRun : List Event :=
  [.construct still stillAttempt, .socketConnectionError 0 "refused" startsUp,
    .reconnectTicker stillAttempt, .meanwhile ⟨fun _ => false, some .open⟩, .socketConnected 1]

/-- The process exits, the watchdog sees it, and the module is unloaded after a second launch. -/
def relaunchRun : List Event :=
  bootRun ++ [.meanwhile ⟨fun _ => true, some .lost⟩, .watchdogTick still,
    .socketClosed 1 (fun _ => true), .reconnect stillAttempt,
    .socketConnectionError 2 "refused" startsUp, .shutdown (fun _ => true) still]

theorem sidecar_not_leaked_relaunch :
    ∃ b os, exec (bringUpStep decimalTexts) start relaunchRun = some (b, os) ∧ b.processes = 2 ∧
      b.live.length ≤ 1 ∧ (∀ p ∈ b.live, b.manager.processHandle = some p) ∧
        (b.loaded = false → b.live = []) ∧ coherent b.manager b.manager.state := by
  have hrun : (exec (bringUpStep decimalTexts) start relaunchRun).map (fun p => p.1.processes) =
      some 2 := by decide +kernel
  obtain ⟨⟨b, os⟩, hexec, hprocesses⟩ := Option.map_eq_some_iff.mp hrun
  exact ⟨b, os, hexec, hprocesses, sidecar_not_leaked decimalTexts hexec⟩

end BringUp

end AetherForge.Plugin
