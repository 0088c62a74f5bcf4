import AetherForge.Plugin.BringUp

/-!
# Connection attempts

What an attempt and its failure come to, whatever processes and connections do meanwhile, and how
many of them an opening of the panel costs.

* `Tried` — a connection that is found, or a new socket;
* `Handled` — a retry, a launch, or a launch that fails;
* `attempts_bounded` — at most ten sockets for each opening of the panel and press of Reconnect, and
  no more processes than sockets.
-/

namespace AetherForge.Plugin

open GoJson Operation StructJson Transition

namespace BringUp

/-! ### Attempts -/

/-- The same socket, later. -/
structure Later (s s' : Socket) : Prop where
  announced : s'.announced = s.announced
  opened : s.link.opened = true → s'.link.opened = true

theorem opened_of_turns {link link' : Link} (h : link.turns link' = true)
    (hopened : link.opened = true) : link'.opened = true := by
  revert h hopened
  cases link <;> cases link' <;> decide

theorem turned_later (link : Option Link) (s : Socket) : Later s (turned link s) := by
  unfold turned
  split
  · exact ⟨rfl, id⟩
  · split
    · rename_i hturns
      exact ⟨rfl, opened_of_turns hturns⟩
    · exact ⟨rfl, id⟩

/-- A connection that was lost stays so. -/
theorem turned_lost (link : Option Link) {s : Socket} (h : s.link = .lost) :
    (turned link s).link = .lost := by
  unfold turned
  split
  · exact h
  · split
    · rename_i link' hturns
      rw [h] at hturns
      cases link' <;> first | rfl | cases hturns
    · exact h

/-- What an attempt comes to: the present socket turned out to be connected, or there is a new
one. -/
structure Tried (b c : BringUp) : Prop where
  processes : c.processes = b.processes
  manager : c.manager = b.manager
  panel : c.panel = b.panel
  reconnectTicker : c.reconnectTicker = b.reconnectTicker
  socket :
    (∃ s s', b.socket = some s ∧ c.socket = some s' ∧ Later s s' ∧ s.link ≠ .lost ∧
        s'.link = .open ∧ c.sockets = b.sockets) ∨
      c.socket = some ⟨b.sockets, .connecting, false⟩ ∧ c.sockets = b.sockets + 1

section Attempts

variable {b c : BringUp}

/-- A connection that is found. -/
theorem Tried.found (w : Meanwhile) (h : (meanwhile w b).1.isConnected = true) :
    Tried b (meanwhile w b).1 := by
  refine ⟨rfl, rfl, rfl, rfl, .inl ?_⟩
  cases hsocket : b.socket with
  | none =>
    rw [isConnected, meanwhile, hsocket] at h
    cases h
  | some s =>
    rw [isConnected, meanwhile, hsocket] at h
    have hopen : (turned w.link s).link = .open := of_decide_eq_true h
    refine ⟨s, turned w.link s, rfl, by rw [meanwhile, hsocket]; rfl, turned_later _ _, ?_, hopen,
      rfl⟩
    intro hlost
    rw [turned_lost w.link hlost] at hopen
    cases hopen

/-- What is found after something has happened meanwhile. -/
theorem Tried.later {w : Meanwhile} (h : Tried (meanwhile w b).1 c) : Tried b c := by
  refine ⟨h.processes, h.manager, h.panel, h.reconnectTicker, ?_⟩
  rcases h.socket with ⟨s, s', hs, hs', hlater, hlost, hlink, hsockets⟩ | hnew
  · obtain ⟨s₀, hs₀, rfl⟩ := Option.map_eq_some_iff.mp hs
    have hlater₀ := turned_later w.link s₀
    exact .inl ⟨s₀, s', hs₀, hs', ⟨hlater.announced.trans hlater₀.announced,
      fun hopened => hlater.opened (hlater₀.opened hopened)⟩,
      fun hlost₀ => hlost (turned_lost w.link hlost₀), hlink, hsockets⟩
  · exact .inr hnew

theorem connectSocket_tried (w : Meanwhile) (manifest : TMap WireManifestEntry) (b : BringUp) :
    Tried b (connectSocket w manifest b).1 ∧
      (connectSocket w manifest b).1.connectAttemptsRemaining = b.connectAttemptsRemaining := by
  cases h : (meanwhile w b).1.isConnected with
  | true =>
    have hc : (connectSocket w manifest b).1 = (meanwhile w b).1 := by
      simp only [connectSocket, look, seq, h, if_true]
      rfl
    rw [hc]
    exact ⟨.found w h, rfl⟩
  | false =>
    have hc : (connectSocket w manifest b).1 = { (meanwhile w b).1 with
        pendingHelloManifest := manifest
        socket := some ⟨b.sockets, .connecting, false⟩
        sockets := b.sockets + 1 } := by
      simp only [connectSocket, look, seq, h]
      rfl
    rw [hc]
    exact ⟨⟨rfl, rfl, rfl, rfl, .inr ⟨rfl, rfl⟩⟩, rfl⟩

theorem tryConnect_tried (ans : AttemptAnswers) (b : BringUp) :
    Tried b (tryConnect ans b).1 ∧
      ((tryConnect ans b).1.connectAttemptsRemaining = b.connectAttemptsRemaining ∧
          (tryConnect ans b).1.sockets = b.sockets ∨
        (tryConnect ans b).1.connectAttemptsRemaining = b.connectAttemptsRemaining - 1) := by
  cases h : (meanwhile ans.attempt b).1.isConnected with
  | true =>
    have hc : (tryConnect ans b).1 = (meanwhile ans.attempt b).1 := by
      simp only [tryConnect, look, seq, h, if_true]
      rfl
    rw [hc]
    exact ⟨.found _ h, .inl ⟨rfl, rfl⟩⟩
  | false =>
    obtain ⟨htried, hattempts⟩ := connectSocket_tried ans.connect
      (buildWireManifest (getOrLoadManifest ans.manifest))
      { (meanwhile ans.attempt b).1 with
        connectAttemptsRemaining := b.connectAttemptsRemaining - 1 }
    have hc : (tryConnect ans b).1 = (connectSocket ans.connect
        (buildWireManifest (getOrLoadManifest ans.manifest))
        { (meanwhile ans.attempt b).1 with
          connectAttemptsRemaining := b.connectAttemptsRemaining - 1 }).1 := by
      simp only [tryConnect, look, seq, h]
      rfl
    rw [hc]
    refine ⟨?_, .inr hattempts⟩
    exact Tried.later (w := ans.attempt) ⟨htried.processes, htried.manager, htried.panel,
      htried.reconnectTicker, htried.socket⟩

theorem ensureBackend_tried (ans : AttemptAnswers) (b : BringUp) :
    Tried b (ensureBackend ans b).1 ∧
      ((ensureBackend ans b).1.connectAttemptsRemaining = b.connectAttemptsRemaining ∧
          (ensureBackend ans b).1.sockets = b.sockets ∨
        (ensureBackend ans b).1.connectAttemptsRemaining = MaxConnectAttempts ∧
          (ensureBackend ans b).1.sockets = b.sockets ∨
        (ensureBackend ans b).1.connectAttemptsRemaining = MaxConnectAttempts - 1) := by
  cases h : (meanwhile ans.ensure b).1.isConnected with
  | true =>
    have hc : (ensureBackend ans b).1 = (meanwhile ans.ensure b).1 := by
      simp only [ensureBackend, look, seq, h, if_true]
      rfl
    rw [hc]
    exact ⟨.found _ h, .inl ⟨rfl, rfl⟩⟩
  | false =>
    obtain ⟨htried, hattempts⟩ := tryConnect_tried ans
      { (meanwhile ans.ensure b).1 with connectAttemptsRemaining := MaxConnectAttempts }
    have hc : (ensureBackend ans b).1 = (tryConnect ans
        { (meanwhile ans.ensure b).1 with connectAttemptsRemaining := MaxConnectAttempts }).1 := by
      simp only [ensureBackend, look, seq, h]
      rfl
    rw [hc]
    refine ⟨?_, .inr hattempts⟩
    exact Tried.later (w := ans.ensure) ⟨htried.processes, htried.manager, htried.panel,
      htried.reconnectTicker, htried.socket⟩

end Attempts

/-! ### A failed attempt -/

/-- Only time has passed: what the game thread owns is as it was, and its socket with it. -/
structure Aged (b c : BringUp) : Prop where
  processes : c.processes = b.processes
  live : c.live.Sublist b.live
  manager : c.manager = b.manager
  isSome : c.socket.isSome = b.socket.isSome
  socket : ∀ s', c.socket = some s' → ∃ s, b.socket = some s ∧ Later s s'
  sockets : c.sockets = b.sockets
  connectAttemptsRemaining : c.connectAttemptsRemaining = b.connectAttemptsRemaining
  reconnectTicker : c.reconnectTicker = b.reconnectTicker
  panel : c.panel = b.panel
  loaded : c.loaded = b.loaded

/-- What the module's handler of a failed attempt comes to, when attempts remain: a retry, a launch
and a retry unless the process has exited, or a launch that fails. -/
inductive Handled (b : BringUp) : BringUp → Prop
  | retry (c : BringUp) (hc : Aged b c) : Handled b { c with reconnectTicker := true }
  | launched (c : BringUp) (m : SidecarManager) (d : BringUp) (retry : Bool) (hc : Aged b c)
      (hstate : m.state = .running) (hwatchdog : m.watchdog = true)
      (hd : Aged { c with
        processes := c.processes + 1
        live := c.processes :: c.live
        manager := m
        panel := c.panel.map (·.setState .startingSidecar) } d)
      (hretry : retry = false → d.isRunning = false) :
      Handled b { d with reconnectTicker := retry || d.reconnectTicker }
  | failed (c : BringUp) (m : SidecarManager) (d : BringUp) (hc : Aged b c)
      (hd : Aged { c with
        manager := m
        panel := c.panel.map (·.enterErrorState m.lastError) } d) : Handled b d

section Failures

variable {b c d : BringUp}

theorem Aged.trans (h : Aged b c) (h' : Aged c d) : Aged b d :=
  ⟨h'.processes.trans h.processes, h'.live.trans h.live, h'.manager.trans h.manager,
    h'.isSome.trans h.isSome, fun s'' hs'' => by
      obtain ⟨s', hs', hlater'⟩ := h'.socket s'' hs''
      obtain ⟨s, hs, hlater⟩ := h.socket s' hs'
      exact ⟨s, hs, hlater'.announced.trans hlater.announced,
        fun hopened => hlater'.opened (hlater.opened hopened)⟩,
    h'.sockets.trans h.sockets,
    h'.connectAttemptsRemaining.trans h.connectAttemptsRemaining,
    h'.reconnectTicker.trans h.reconnectTicker, h'.panel.trans h.panel,
    h'.loaded.trans h.loaded⟩

theorem meanwhile_aged (w : Meanwhile) (b : BringUp) : Aged b (meanwhile w b).1 := by
  refine ⟨rfl, List.filter_sublist, rfl, Option.isSome_map, fun s' hs' => ?_, rfl, rfl, rfl, rfl,
    rfl⟩
  obtain ⟨s, hs, rfl⟩ := Option.map_eq_some_iff.mp hs'
  exact ⟨s, hs, turned_later _ _⟩

/-- A process that has exited does not run again. -/
theorem Aged.not_running (h : Aged b c) (hrunning : b.isRunning = false) :
    c.isRunning = false := by
  rw [isRunning] at hrunning ⊢
  rw [h.manager]
  cases hhandle : b.manager.processHandle with
  | none => rfl
  | some process =>
    rw [hhandle, Option.any_some] at hrunning
    rw [Option.any_some, Bool.eq_false_iff]
    intro hlive
    rw [List.contains_iff_mem.mpr (h.live.subset (List.contains_iff_mem.mp hlive))] at hrunning
    cases hrunning

/-- **What a failed attempt leads to.** -/
theorem handleConnectionError_handled (ans : FailureAnswers) (h : Sound b)
    (hattempts : 0 < b.connectAttemptsRemaining) : Handled b (handleConnectionError ans b).1 := by
  obtain ⟨c, hc⟩ : ∃ c, c = (meanwhile ans.sidecar b).1 := ⟨_, rfl⟩
  have hage : Aged b c := hc ▸ meanwhile_aged _ b
  cases hrunning : c.isRunning with
  | true =>
    have hresult : (handleConnectionError ans b).1 = { c with reconnectTicker := true } := by
      simp only [handleConnectionError, hattempts, if_true, look, seq, ← hc, hrunning]
      rfl
    rw [hresult]
    exact .retry c hage
  | false =>
    -- a process that does not run is not found running by the launch
    obtain ⟨d, hd⟩ : ∃ d, d = (meanwhile ans.launching c).1 := ⟨_, rfl⟩
    have hage' : Aged b d := hage.trans (hd ▸ meanwhile_aged _ c)
    have hrunning' : d.isRunning = false :=
      (hd ▸ meanwhile_aged _ c : Aged c d).not_running hrunning
    obtain ⟨e, he⟩ : ∃ e, e = (meanwhile ans.launched
      (startProcess SidecarPort ans.launch d).1).1 := ⟨_, rfl⟩
    have hresult : (handleConnectionError ans b).1 =
        { e with reconnectTicker := e.isRunning || e.reconnectTicker } := by
      simp only [handleConnectionError, hattempts, if_true, look, seq, ← hc, hrunning, launch, ← hd,
        hrunning', Bool.false_eq_true, if_false, ← he]
      cases e.isRunning <;> rfl
    have hstate : d.manager.state ≠ .starting := by
      rw [hage'.manager]
      exact h.starting_ne
    rw [hresult]
    rcases startProcess_cases SidecarPort ans.launch hstate with
      ⟨m, hhandle, hstate, herror, hwatchdog, heq⟩ | ⟨m, hhandle, hfailed, herror, heq⟩
    · rw [heq] at he
      exact .launched d m e e.isRunning hage' hstate hwatchdog (he ▸ meanwhile_aged _ _) id
    · rw [heq] at he
      have haged : Aged { d with
          manager := m
          panel := d.panel.map (·.enterErrorState m.lastError) } e := he ▸ meanwhile_aged _ _
      have hexited : e.isRunning = false := haged.not_running (by simp [isRunning, hhandle])
      rw [hexited]
      exact .failed d m e hage' haged

/-- The panel's handler of a failed attempt: only while the process runs and a retry is pending it
waits. -/
theorem panelConnectionError_cases (reason : String) (w : Meanwhile) (b : BringUp) :
    (∃ c, Aged b c ∧ c.isRunning = true ∧ b.isConnectRetryPending = true ∧
        (panelConnectionError reason w b).1 = c) ∨
      ∃ c, Aged b c ∧ (panelConnectionError reason w b).1 = { c with
        panel := b.panel.map (·.enterErrorState ("Connection failed: " ++ reason)) } := by
  obtain ⟨c, hc⟩ : ∃ c, c = (meanwhile w b).1 := ⟨_, rfl⟩
  have hage : Aged b c := hc ▸ meanwhile_aged _ b
  have hpending : c.isConnectRetryPending = b.isConnectRetryPending := by
    rw [isConnectRetryPending, hage.reconnectTicker, hage.connectAttemptsRemaining]
    rfl
  cases hwaits : c.isRunning && c.isConnectRetryPending with
  | true =>
    obtain ⟨hrunning, hretry⟩ := Bool.and_eq_true_iff.mp hwaits
    refine .inl ⟨c, hage, hrunning, hpending ▸ hretry, ?_⟩
    simp only [panelConnectionError, look, seq, ← hc, hwaits, if_true]
    rfl
  | false =>
    refine .inr ⟨c, hage, ?_⟩
    rw [← hage.panel]
    simp only [panelConnectionError, look, seq, ← hc, hwaits]
    rfl

theorem handleConnectionError_none {ans : FailureAnswers}
    (h : ¬0 < b.connectAttemptsRemaining) : (handleConnectionError ans b).1 = b := by
  rw [handleConnectionError, if_neg h]

theorem Aged.socket_none (h : Aged b c) (hsocket : b.socket = none) : c.socket = none := by
  have hisSome := h.isSome
  rw [hsocket] at hisSome
  exact Option.not_isSome_iff_eq_none.mp (Bool.eq_false_iff.mp hisSome)

theorem Handled.socket_none (h : Handled b c) (hsocket : b.socket = none) : c.socket = none := by
  cases h with
  | retry c hc => exact hc.socket_none hsocket
  | launched c m d retry hc hstate hwatchdog hd hretry =>
    exact hd.socket_none (hc.socket_none hsocket)
  | failed c m d hc hd => exact hd.socket_none (hc.socket_none hsocket)

theorem panelConnectionError_socket_none (reason : String) (w : Meanwhile)
    (hsocket : b.socket = none) : (panelConnectionError reason w b).1.socket = none := by
  rcases panelConnectionError_cases reason w b with ⟨c, hage, -, -, hc⟩ | ⟨c, hage, hc⟩
  · rw [hc]
    exact hage.socket_none hsocket
  · rw [hc]
    exact hage.socket_none hsocket

theorem handleConnectionError_socket_none (ans : FailureAnswers) (h : Sound b)
    (hsocket : b.socket = none) : (handleConnectionError ans b).1.socket = none := by
  by_cases hremain : 0 < b.connectAttemptsRemaining
  · exact (handleConnectionError_handled ans h hremain).socket_none hsocket
  · rw [handleConnectionError_none hremain]
    exact hsocket

/-- The handlers of a failed attempt create no socket. -/
theorem broadcastConnectionError_socket_none (reason : String) (ans : FailureAnswers) (h : Sound b)
    (hsocket : b.socket = none) : (broadcastConnectionError reason ans b).1.socket = none := by
  unfold broadcastConnectionError
  split
  · exact panelConnectionError_socket_none _ _ (handleConnectionError_socket_none ans h hsocket)
  · exact handleConnectionError_socket_none ans
      (h.onlyExits (panelConnectionError_onlyExits reason ans.panel b))
      (panelConnectionError_socket_none _ _ hsocket)

theorem watchdogTick_cases (w : Meanwhile) (b : BringUp) :
    Aged b (watchdogTick w b).1 ∨ ∃ c m message, Aged b c ∧
      (watchdogTick w b).1 = { c with
        manager := m
        panel := c.panel.map (·.enterErrorState message) } := by
  obtain ⟨c, hc⟩ : ∃ c, c = (meanwhile w b).1 := ⟨_, rfl⟩
  have hage : Aged b c := hc ▸ meanwhile_aged w b
  by_cases hdead : c.manager.state = .running ∧ c.isRunning = false
  · have hstate : c.manager.state ≠ .dead := by
      rw [hdead.1]
      intro heq
      cases heq
    refine .inr ⟨c, { c.manager with
        lastError := exitError c.manager.processId c.manager.sidecarLogPath c.manager.lastPort
        state := .dead },
      exitError c.manager.processId c.manager.sidecarLogPath c.manager.lastPort, hage, ?_⟩
    simp only [watchdogTick, look, seq, ← hc, if_pos hdead, fail, changeManager, change,
      setSidecarState, hstate, if_false]
    rfl
  · refine .inl ?_
    have hresult : (watchdogTick w b).1 = c := by
      simp only [watchdogTick, look, seq, ← hc, if_neg hdead]
      rfl
    rw [hresult]
    exact hage

/-- What `Terminate` changes. -/
theorem terminate_frame (w : Meanwhile) (b : BringUp) :
    ∃ live m p, (terminate w b).1 =
      { (meanwhile w b).1 with live := live, manager := m, panel := p } := by
  cases hhandle : b.manager.processHandle with
  | none =>
    simp only [terminate, seq, look, changeManager, change, meanwhile, hhandle]
    exact ⟨_, _, _, rfl⟩
  | some process =>
    simp only [terminate, seq, look, changeManager, change, meanwhile, hhandle, terminateProc,
      setSidecarState]
    split <;> split <;> exact ⟨_, _, _, rfl⟩

theorem terminate_socket_none (w : Meanwhile) (hsocket : b.socket = none) :
    (terminate w b).1.socket = none := by
  obtain ⟨live, m, p, hc⟩ := terminate_frame w b
  rw [hc]
  exact (meanwhile_aged w b).socket_none hsocket

/-- The panel's part of an event leaves all but the panel and the module as it was. -/
theorem panelOp_frame (T : TextFunctions) (event : PanelEvent) (b : BringUp) :
    ∃ p f, (panelOp T event b).1 = { b with panel := p, forge := f } := by
  cases event with
  | message m requests completed => exact ⟨_, _, rfl⟩
  | _ =>
    simp only [panelOp, withEditor]
    split
    · exact ⟨_, _, rfl⟩
    · exact ⟨_, _, rfl⟩

/-- `Construct` finds a connection, or makes sure of one. -/
theorem construct_cases (w : Meanwhile) (ans : AttemptAnswers) (b : BringUp) :
    (∃ c, Aged { b with panel := some .start } c ∧ c.isConnected = true ∧
        (construct w ans b).1 = (withPanel (·.setState .connectedIdle) c).1) ∨
      ∃ c, Aged { b with panel := some .start } c ∧ c.isConnected = false ∧
        (construct w ans b).1 =
          (ensureBackend ans (withPanel (·.setState .startingSidecar) c).1).1 := by
  obtain ⟨c, hc⟩ : ∃ c, c = (meanwhile w { b with panel := some .start }).1 := ⟨_, rfl⟩
  have hage : Aged { b with panel := some .start } c := hc ▸ meanwhile_aged _ _
  cases hconnected : c.isConnected with
  | true =>
    refine .inl ⟨c, hage, hconnected, ?_⟩
    simp only [construct, seq, look, change, ← hc, hconnected, if_true]
  | false =>
    refine .inr ⟨c, hage, hconnected, ?_⟩
    simp only [construct, seq, look, change, ← hc, hconnected]
    rfl

end Failures

/-! ### The budget of attempts -/

/-- An opening of the panel and a press of Reconnect. -/
def Event.opens : Event → ℕ
  | .construct _ _ => 1
  | .reconnect _ => 1
  | _ => 0

def openings (events : List Event) : ℕ := events.foldl (fun n event => n + event.opens) 0

/-- What so many openings may have cost. -/
structure Budget (openings : ℕ) (b : BringUp) : Prop where
  nonneg : 0 ≤ b.connectAttemptsRemaining
  atMost : b.connectAttemptsRemaining ≤ MaxConnectAttempts
  retry : b.reconnectTicker = true → 0 < b.connectAttemptsRemaining
  sockets : (b.sockets : ℤ) + b.connectAttemptsRemaining ≤ MaxConnectAttempts * openings
  processes : b.processes + b.socket.isSome.toNat ≤ b.sockets

/-- What the handlers of a failed attempt spend. -/
structure Spent (launches : ℕ) (b c : BringUp) : Prop where
  connectAttemptsRemaining : c.connectAttemptsRemaining = b.connectAttemptsRemaining
  sockets : c.sockets = b.sockets
  processes : c.processes ≤ b.processes + launches
  retry : c.reconnectTicker = true → b.reconnectTicker = true ∨ 0 < b.connectAttemptsRemaining

section Spending

variable {n k l : ℕ} {b c d : BringUp}

theorem Spent.trans (h : Spent k b c) (h' : Spent l c d) : Spent (k + l) b d := by
  refine ⟨h'.connectAttemptsRemaining.trans h.connectAttemptsRemaining,
    h'.sockets.trans h.sockets, ?_, fun hretry => ?_⟩
  · have hfirst := h.processes
    have hsecond := h'.processes
    omega
  · rcases h'.retry hretry with hticker | hremain
    · exact h.retry hticker
    · exact .inr (h.connectAttemptsRemaining ▸ hremain)

theorem Aged.spent (h : Aged b c) : Spent 0 b c :=
  ⟨h.connectAttemptsRemaining, h.sockets, h.processes.le,
    fun hretry => .inl (h.reconnectTicker ▸ hretry)⟩

theorem Handled.spent (h : Handled b c) (hremain : 0 < b.connectAttemptsRemaining) :
    Spent 1 b c := by
  cases h with
  | retry c hc =>
    exact ⟨hc.connectAttemptsRemaining, hc.sockets, hc.processes.le.trans (Nat.le_succ _),
      fun _ => .inr hremain⟩
  | launched c m d retry hc _ _ hd _ =>
    refine ⟨hd.connectAttemptsRemaining.trans hc.connectAttemptsRemaining,
      hd.sockets.trans hc.sockets, ?_, fun _ => .inr hremain⟩
    exact (hd.processes.trans (congrArg (· + 1) hc.processes)).le
  | failed c m d hc hd =>
    refine ⟨hd.connectAttemptsRemaining.trans hc.connectAttemptsRemaining,
      hd.sockets.trans hc.sockets, ?_, fun _ => .inr hremain⟩
    exact (hd.processes.trans hc.processes).le.trans (Nat.le_succ _)

theorem handleConnectionError_spent (ans : FailureAnswers) (h : Sound b) :
    Spent 1 b (handleConnectionError ans b).1 := by
  by_cases hremain : 0 < b.connectAttemptsRemaining
  · exact (handleConnectionError_handled ans h hremain).spent hremain
  · rw [handleConnectionError_none hremain]
    exact ⟨rfl, rfl, Nat.le_succ _, .inl⟩

theorem panelConnectionError_spent (reason : String) (w : Meanwhile) (b : BringUp) :
    Spent 0 b (panelConnectionError reason w b).1 := by
  rcases panelConnectionError_cases reason w b with ⟨c, hage, -, -, hc⟩ | ⟨c, hage, hc⟩
  · rw [hc]
    exact hage.spent
  · rw [hc]
    exact ⟨hage.spent.connectAttemptsRemaining, hage.spent.sockets, hage.spent.processes,
      hage.spent.retry⟩

/-- One failed attempt launches at most one process. -/
theorem broadcastConnectionError_spent (reason : String) (ans : FailureAnswers) (h : Sound b) :
    Spent 1 b (broadcastConnectionError reason ans b).1 := by
  unfold broadcastConnectionError
  split
  · exact (handleConnectionError_spent ans h).trans (panelConnectionError_spent _ _ _)
  · exact (panelConnectionError_spent reason ans.panel b).trans (handleConnectionError_spent ans
      (h.onlyExits (panelConnectionError_onlyExits reason ans.panel b)))

theorem Budget.aged (h : Budget n b) (hage : Aged b c) : Budget n c := by
  constructor
  · rw [hage.connectAttemptsRemaining]
    exact h.nonneg
  · rw [hage.connectAttemptsRemaining]
    exact h.atMost
  · rw [hage.reconnectTicker, hage.connectAttemptsRemaining]
    exact h.retry
  · rw [hage.sockets, hage.connectAttemptsRemaining]
    exact h.sockets
  · rw [hage.processes, hage.isSome, hage.sockets]
    exact h.processes

/-- After the budget for a failed attempt is spent, a socket is gone for every process. -/
theorem Budget.spent (h : Budget n b) (hsocket : b.socket.isSome = true) (hspent : Spent 1 b c)
    (hnone : c.socket = none) : Budget n c := by
  have hprocesses := h.processes
  have hlaunches := hspent.processes
  constructor
  · rw [hspent.connectAttemptsRemaining]
    exact h.nonneg
  · rw [hspent.connectAttemptsRemaining]
    exact h.atMost
  · intro hretry
    rw [hspent.connectAttemptsRemaining]
    exact (hspent.retry hretry).elim h.retry id
  · rw [hspent.sockets, hspent.connectAttemptsRemaining]
    exact h.sockets
  · rw [hspent.sockets, hnone]
    rw [hsocket] at hprocesses
    exact hlaunches.trans hprocesses

/-- The socket of an attempt and the sockets before it leave room for every process. -/
theorem Tried.processes_le (h : Tried b c)
    (hprocesses : b.processes + b.socket.isSome.toNat ≤ b.sockets) :
    c.processes + c.socket.isSome.toNat ≤ c.sockets ∧ c.sockets ≤ b.sockets + 1 := by
  rw [h.processes]
  rcases h.socket with ⟨s, s', hs, hs', -, -, -, hsockets⟩ | ⟨hs', hsockets⟩
  · rw [hs', hsockets]
    rw [hs] at hprocesses
    exact ⟨hprocesses, Nat.le_succ _⟩
  · rw [hs', hsockets]
    refine ⟨Nat.succ_le_succ ?_, le_rfl⟩
    exact (Nat.le_add_right _ _).trans hprocesses

theorem Budget.ensured (ans : AttemptAnswers) (h : Budget n b) :
    Budget (n + 1) (ensureBackend ans b).1 := by
  obtain ⟨htried, hattempts⟩ := ensureBackend_tried ans b
  obtain ⟨hprocesses, hsockets⟩ := htried.processes_le h.processes
  have hretry := h.retry
  have hnonneg := h.nonneg
  have hatMost := h.atMost
  have hbudget := h.sockets
  rw [← htried.reconnectTicker] at hretry
  simp only [MaxConnectAttempts] at hattempts hatMost hbudget
  refine ⟨?_, ?_, fun hticker => ?_, ?_, hprocesses⟩
  · omega
  · simp only [MaxConnectAttempts]
    omega
  · have hpositive := hretry hticker
    omega
  · simp only [MaxConnectAttempts]
    push_cast
    omega

theorem Budget.retried (ans : AttemptAnswers) (h : Budget n b)
    (hticker : b.reconnectTicker = true) :
    Budget n (tryConnect ans { b with reconnectTicker := false }).1 := by
  obtain ⟨htried, hattempts⟩ := tryConnect_tried ans { b with reconnectTicker := false }
  obtain ⟨hprocesses, hsockets⟩ := htried.processes_le h.processes
  have hpositive := h.retry hticker
  have hatMost := h.atMost
  have hbudget := h.sockets
  simp only at hattempts hsockets
  refine ⟨?_, ?_, fun hpending => ?_, ?_, hprocesses⟩
  · omega
  · omega
  · rw [htried.reconnectTicker] at hpending
    cases hpending
  · omega

/-- **Every event** stays within the budget. -/
theorem event_budget (T : TextFunctions) (event : Event) (hsound : Sound b) (h : Budget n b)
    (henabled : event.enabled b = true) : Budget (n + event.opens) (event.op T b).1 := by
  cases event with
  | construct w ans =>
    have hopened : Budget n { b with panel := some .start } :=
      ⟨h.nonneg, h.atMost, h.retry, h.sockets, h.processes⟩
    rcases construct_cases w ans b with ⟨c, hage, -, hresult⟩ | ⟨c, hage, -, hresult⟩
    · have hbefore := hopened.aged hage
      simp only [Event.op]
      rw [hresult]
      refine ⟨hbefore.nonneg, hbefore.atMost, hbefore.retry, hbefore.sockets.trans ?_,
        hbefore.processes⟩
      simp [MaxConnectAttempts, Event.opens]
    · have hbefore := hopened.aged hage
      have hstarting : Budget n (withPanel (·.setState .startingSidecar) c).1 :=
        ⟨hbefore.nonneg, hbefore.atMost, hbefore.retry, hbefore.sockets, hbefore.processes⟩
      simp only [Event.op]
      rw [hresult]
      exact hstarting.ensured ans
  | destruct => exact ⟨h.nonneg, h.atMost, h.retry, h.sockets, h.processes⟩
  | reconnect ans =>
    have hstarting : Budget n (withPanel (·.setState .startingSidecar) b).1 :=
      ⟨h.nonneg, h.atMost, h.retry, h.sockets, h.processes⟩
    exact hstarting.ensured ans
  | panel event =>
    obtain ⟨p, f, heq⟩ := panelOp_frame T event b
    have hop : ((Event.panel event).op T b).1 = { b with panel := p, forge := f } := heq
    rw [hop]
    exact ⟨h.nonneg, h.atMost, h.retry, h.sockets, h.processes⟩
  | socketConnected number =>
    simp only [Event.op, handleSocketConnected, fromSocket]
    split
    · refine ⟨h.nonneg, h.atMost, h.retry, h.sockets, ?_⟩
      show b.processes + (b.socket.map _).isSome.toNat ≤ b.sockets
      rw [Option.isSome_map]
      exact h.processes
    · exact h
  | socketConnectionError number reason ans =>
    simp only [Event.op, handleSocketConnectionError, fromSocket]
    split
    · rename_i hnumber
      obtain ⟨s, hs, -⟩ := (Option.any_eq_true _ _).mp hnumber
      have hreset : Sound { b with socket := none } :=
        hsound.onlyExits (o := []) ⟨rfl, .refl _, rfl, rfl⟩
      have hspent := broadcastConnectionError_spent reason ans hreset
      exact h.spent (by rw [hs]; rfl)
        ⟨hspent.connectAttemptsRemaining, hspent.sockets, hspent.processes, hspent.retry⟩
        (broadcastConnectionError_socket_none reason ans hreset rfl)
    · exact h
  | socketClosed number completed =>
    simp only [Event.op, handleSocketClosed, fromSocket]
    split
    · exact ⟨h.nonneg, h.atMost, h.retry, h.sockets, (Nat.le_add_right _ _).trans h.processes⟩
    · exact h
  | reconnectTicker ans => exact h.retried ans (Bool.and_eq_true_iff.mp henabled).2
  | watchdogTick w =>
    rcases watchdogTick_cases w b with hage | ⟨c, m, message, hage, hc⟩
    · exact h.aged hage
    · have hop : ((Event.watchdogTick w).op T b).1 = { c with
          manager := m
          panel := c.panel.map (·.enterErrorState message) } := hc
      have hbudget : Budget n c := h.aged hage
      rw [hop]
      exact ⟨hbudget.nonneg, hbudget.atMost, hbudget.retry, hbudget.sockets, hbudget.processes⟩
  | meanwhile w => exact h.aged (meanwhile_aged w b)
  | loaded key ans => exact ⟨h.nonneg, h.atMost, h.retry, h.sockets, h.processes⟩
  | spawnTick world turns => exact ⟨h.nonneg, h.atMost, h.retry, h.sockets, h.processes⟩
  | shutdown completed w =>
    obtain ⟨c, hc⟩ : ∃ c, c = (withForge (onSpawner none (Plugin.shutdown completed))
      { b with reconnectTicker := false, socket := none }).1 := ⟨_, rfl⟩
    obtain ⟨live, m, p, heq⟩ := terminate_frame w c
    have hop : ((Event.shutdown completed w).op T b).1 = { (meanwhile w c).1 with
        live := live, manager := m, panel := p, loaded := false } := by
      have hfinal : ((Event.shutdown completed w).op T b).1 =
          { (terminate w c).1 with loaded := false } := by
        rw [hc]
        rfl
      rw [hfinal, heq]
    rw [hop, hc]
    refine ⟨h.nonneg, h.atMost, fun hretry => ?_, h.sockets, ?_⟩
    · cases hretry
    · exact (Nat.le_add_right _ _).trans h.processes

/-- **Attempts are bounded**: the counter stays between 0 and ten, so many openings of the panel and
presses of Reconnect create at most ten times as many sockets, and no more processes than
sockets. -/
theorem attempts_bounded (T : TextFunctions) {events : List Event} {os : List BringUpAction}
    (h : exec (bringUpStep T) start events = some (b, os)) :
    0 ≤ b.connectAttemptsRemaining ∧ b.connectAttemptsRemaining ≤ MaxConnectAttempts ∧
      (b.reconnectTicker = true → 0 < b.connectAttemptsRemaining) ∧
      b.sockets ≤ 10 * openings events ∧ b.processes ≤ b.sockets := by
  have hinvariant : Sound b ∧ Budget (openings events) b := by
    refine exec_foldl (J := fun n b => Sound b ∧ Budget n b) ?_
      ⟨start_sound, le_rfl, by decide, fun hretry => ?_, le_rfl, le_rfl⟩ h
    · rintro n b event b' o ⟨hsound, hbudget⟩ hstep
      obtain ⟨henabled, hop⟩ := Option.ite_none_right_eq_some.mp hstep
      have hb' : b' = (event.op T b).1 := congrArg Prod.fst (Option.some.inj hop).symm
      rw [hb']
      exact ⟨event_sound T event b ⟨hsound, henabled⟩, event_budget T event hsound hbudget henabled⟩
    · cases hretry
  have hbudget := hinvariant.2
  have hsockets := hbudget.sockets
  have hnonneg := hbudget.nonneg
  simp only [MaxConnectAttempts] at hsockets
  exact ⟨hbudget.nonneg, hbudget.atMost, hbudget.retry, by omega,
    (Nat.le_add_right _ _).trans hbudget.processes⟩

end Spending

theorem attempts_bounded_relaunch :
    ∃ b os, exec (bringUpStep decimalTexts) start relaunchRun = some (b, os) ∧ b.sockets = 3 ∧
      openings relaunchRun = 2 ∧ 0 ≤ b.connectAttemptsRemaining ∧
        b.connectAttemptsRemaining ≤ MaxConnectAttempts ∧
        (b.reconnectTicker = true → 0 < b.connectAttemptsRemaining) ∧
        b.sockets ≤ 10 * openings relaunchRun ∧ b.processes ≤ b.sockets := by
  have hrun : (exec (bringUpStep decimalTexts) start relaunchRun).map (fun p => p.1.sockets) =
      some 3 := by decide +kernel
  obtain ⟨⟨b, os⟩, hexec, hsockets⟩ := Option.map_eq_some_iff.mp hrun
  exact ⟨b, os, hexec, hsockets, rfl, attempts_bounded decimalTexts hexec⟩

end BringUp

end AetherForge.Plugin
