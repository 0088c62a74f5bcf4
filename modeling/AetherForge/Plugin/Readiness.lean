import AetherForge.Plugin.Attempts

/-!
# When the panel is ready

The panel learns of the connection from callbacks alone, and its buttons depend on the state it
shows.

* `starting_under_way` — in every run the panel says that it is starting only while there is a
  socket, a retry is pending, or the watchdog is about to report;
* `starting_awaits` — the socket is one whose callback is to come, unless Reconnect is pressed over
  a connection that is open;
* `stuck_over_connection` — such a press leaves the panel starting with nothing to wait for;
* `online_when_connected` — Generate and Cancel are enabled only over a connection.
-/

namespace AetherForge.Plugin

open GoJson Operation StructJson Transition

namespace BringUp

/-! ### What the panel shows -/

/-- The state of the panel, if there is one. -/
def panelState (b : BringUp) : Option PanelState := b.panel.map (·.state)

section Shows

variable {b c : BringUp} {state : PanelState}

theorem panelStartGeneration_state (T : TextFunctions) (seed : Option ℤ) (ans : StartAnswers)
    (ed : Editor) :
    (panelStartGeneration T seed ans ed).1.panel.state = ed.panel.state ∨
      (panelStartGeneration T seed ans ed).1.panel.state = .generating ∨
      (panelStartGeneration T seed ans ed).1.panel.state = .error := by
  unfold panelStartGeneration
  simp only
  split
  · exact .inl rfl
  · simp only [seq]
    split
    · exact .inr (.inr rfl)
    · exact .inr (.inl rfl)

/-- A press makes the panel neither start nor disconnect. -/
theorem press_state (T : TextFunctions) {event : PanelEvent} (ed : Editor)
    (hpress : ∀ m requests completed, event ≠ .message m requests completed) :
    (event.op T ed).1.panel.state = ed.panel.state ∨
      (event.op T ed).1.panel.state = .generating ∨ (event.op T ed).1.panel.state = .error ∨
      (event.op T ed).1.panel.state = .connectedIdle := by
  cases event with
  | typed => exact .inl rfl
  | generate ans =>
    rcases panelStartGeneration_state T (parseSeedField T ed.panel) ans ed with h | h | h
    · exact .inl h
    · exact .inr (.inl h)
    · exact .inr (.inr (.inl h))
  | newVariation rand₁ rand₂ ans =>
    rcases panelStartGeneration_state T (some (rand₁ * 32768 + rand₂)) ans
      (onPanel (fun p => { p with seedText := T.asNumber (rand₁ * 32768 + rand₂) }) ed).1
      with h | h | h
    · exact .inl h
    · exact .inr (.inl h)
    · exact .inr (.inr (.inl h))
  | cancel => exact .inr (.inr (.inr rfl))
  | message m requests completed => exact absurd rfl (hpress m requests completed)

/-- A complete, and an error that leaves the connection open, make the panel idle. -/
def idles : ServerMessage → Bool
  | .complete _ => true
  | .error m => m.recoverable
  | _ => false

theorem message_state (T : TextFunctions) (m : ServerMessage) (p : Panel) :
    (p.handleMessage T m).state = p.state ∨ (p.handleMessage T m).state = .error ∨
      (p.handleMessage T m).state = .connectedIdle ∧ idles m = true := by
  cases m with
  | plan | chunk | invalid => exact .inl rfl
  | complete => exact .inr (.inr ⟨rfl, rfl⟩)
  | error m =>
    simp only [Panel.handleMessage, Panel.handleServerError]
    split
    · rename_i hrecoverable
      exact .inr (.inr ⟨rfl, hrecoverable⟩)
    · exact .inr (.inl rfl)

/-- What a press leaves the panel showing. -/
theorem press_shows (T : TextFunctions) {event : PanelEvent}
    (hpress : ∀ m requests completed, event ≠ .message m requests completed)
    (h : (panelOp T event b).1.panelState = some state) :
    b.panelState = some state ∨ state = .generating ∨ state = .error ∨ state = .connectedIdle := by
  have hop : panelOp T event b = withEditor (event.op T) b := by
    cases event with
    | message m requests completed => exact absurd rfl (hpress m requests completed)
    | _ => rfl
  rw [hop, withEditor] at h
  cases hpanel : b.panel with
  | none =>
    rw [hpanel] at h
    exact .inl h
  | some p =>
    rw [hpanel] at h
    have hstate : (event.op T ⟨p, b.forge⟩).1.panel.state = state := Option.some.inj h
    rw [panelState, hpanel]
    rw [← hstate]
    rcases press_state T ⟨p, b.forge⟩ hpress with hsame | hshows
    · exact .inl (congrArg some hsame.symm)
    · exact .inr hshows

/-- What a message leaves the panel showing. -/
theorem message_shows (T : TextFunctions) {m : ServerMessage} {requests : ℕ → RequestAnswers}
    {completed : ℕ → Bool}
    (h : (panelOp T (.message m requests completed) b).1.panelState = some state) :
    b.panelState = some state ∨ state = .error ∨ state = .connectedIdle ∧ idles m = true := by
  have hmap : (b.panel.map (·.handleMessage T m)).map (·.state) = some state := h
  obtain ⟨p', hp', rfl⟩ := Option.map_eq_some_iff.mp hmap
  obtain ⟨p, hp, rfl⟩ := Option.map_eq_some_iff.mp hp'
  rw [panelState, hp]
  rcases message_state T m p with hsame | hshows
  · exact .inl (congrArg some hsame.symm)
  · exact .inr hshows

/-- Neither makes the panel start. -/
theorem panelOp_starting (T : TextFunctions) (event : PanelEvent)
    (h : (panelOp T event b).1.panelState = some .startingSidecar) :
    b.panelState = some .startingSidecar := by
  cases event with
  | message m requests completed =>
    rcases message_shows T h with hsame | hshows | ⟨hshows, -⟩
    · exact hsame
    · cases hshows
    · cases hshows
  | _ =>
    rcases press_shows T (by intro m r c heq; cases heq) h with hsame | hshows | hshows | hshows
    · exact hsame
    · cases hshows
    · cases hshows
    · cases hshows

theorem setState_shows {st : PanelState} (p : Option Panel)
    (h : (p.map (·.setState st)).map (·.state) = some state) : state = st := by
  cases p with
  | none => cases h
  | some p => exact (Option.some.inj h).symm

theorem enterErrorState_shows (p : Option Panel) (message : String)
    (h : (p.map (·.enterErrorState message)).map (·.state) = some state) : state = .error := by
  cases p with
  | none => cases h
  | some p => exact (Option.some.inj h).symm

/-- A connection leaves the panel idle or generating. -/
theorem handleConnected_shows (p : Option Panel)
    (h : (p.map Panel.handleConnected).map (·.state) = some state) :
    state = .connectedIdle ∨ state = .generating := by
  cases p with
  | none => cases h
  | some p =>
    have hstate : p.handleConnected.state = state := Option.some.inj h
    rw [← hstate, Panel.handleConnected]
    split
    · exact .inl rfl
    · rename_i hgenerating
      exact .inr (not_not.mp hgenerating)

/-- Its end leaves the panel disconnected or in error. -/
theorem handleClosed_shows (p : Option Panel)
    (h : (p.map Panel.handleClosed).map (·.state) = some state) :
    state = .disconnected ∨ state = .error := by
  cases p with
  | none => cases h
  | some p =>
    have hstate : p.handleClosed.state = state := Option.some.inj h
    rw [← hstate, Panel.handleClosed]
    split
    · exact .inl rfl
    · rename_i herror
      exact .inr (not_not.mp herror)

end Shows

/-! ### Under way -/

/-- The process has exited, and the watchdog will see it. -/
def Dying (b : BringUp) : Prop :=
  b.manager.state = .running ∧ b.isRunning = false ∧ b.manager.watchdog = true

/-- While the panel is starting there is a socket, a retry is pending, or the watchdog is about to
report. -/
def UnderWay (b : BringUp) : Prop :=
  b.panelState = some .startingSidecar →
    b.socket.isSome = true ∨ b.reconnectTicker = true ∨ Dying b

section Progress

variable {b c : BringUp}

theorem Dying.aged (h : Dying b) (hage : Aged b c) : Dying c :=
  ⟨hage.manager ▸ h.1, hage.not_running h.2.1, hage.manager ▸ h.2.2⟩

theorem UnderWay.aged (h : UnderWay b) (hage : Aged b c) : UnderWay c := by
  intro hstarting
  rw [panelState, hage.panel] at hstarting
  rw [hage.isSome, hage.reconnectTicker]
  rcases h hstarting with hsocket | hticker | hdying
  · exact .inl hsocket
  · exact .inr (.inl hticker)
  · exact .inr (.inr (hdying.aged hage))

/-- An attempt is under way. -/
theorem Tried.underWay (h : Tried b c) : UnderWay c := by
  intro _
  rcases h.socket with ⟨s, s', -, hs', -⟩ | ⟨hs', -⟩
  · exact .inl (by rw [hs']; rfl)
  · exact .inl (by rw [hs']; rfl)

/-- After the module's handler of a failed attempt: a retry, or a watchdog, or an error. -/
theorem Handled.underWay (h : Handled b c) (hstarting : c.panelState = some .startingSidecar) :
    c.reconnectTicker = true ∨ Dying c := by
  cases h with
  | retry c hc => exact .inl rfl
  | launched c m d retry hc hstate hwatchdog hd hretry =>
    cases retry with
    | true => exact .inl rfl
    | false =>
      refine .inr ⟨?_, hretry rfl, ?_⟩
      · exact (congrArg SidecarManager.state hd.manager).trans hstate
      · exact (congrArg SidecarManager.watchdog hd.manager).trans hwatchdog
  | failed d m c hd hc =>
    rw [panelState, hc.panel] at hstarting
    cases enterErrorState_shows _ _ hstarting

/-- After the panel's: it waits only for a retry that is pending, or for what the module has under
way. -/
theorem panelConnectionError_underWay {reason : String} {w : Meanwhile}
    (h : b.panelState = some .startingSidecar → 0 < b.connectAttemptsRemaining →
      b.reconnectTicker = true ∨ Dying b)
    (hstarting : (panelConnectionError reason w b).1.panelState = some .startingSidecar) :
    (panelConnectionError reason w b).1.reconnectTicker = true ∨
      Dying (panelConnectionError reason w b).1 := by
  rcases panelConnectionError_cases reason w b with ⟨c, hage, -, hpending, hc⟩ | ⟨c, -, hc⟩
  · rw [hc, panelState, hage.panel] at hstarting
    rw [hc, hage.reconnectTicker]
    rcases (Bool.or_eq_true _ _).mp hpending with hticker | hattempts
    · exact .inl hticker
    · rcases h hstarting (of_decide_eq_true hattempts) with hticker | hdying
      · exact .inl hticker
      · exact .inr (hdying.aged hage)
  · rw [hc] at hstarting
    cases enterErrorState_shows _ _ hstarting

/-- **A failed attempt**, whichever handler runs first. -/
theorem broadcastConnectionError_underWay {reason : String} {ans : FailureAnswers} (h : Sound b)
    (hstarting : (broadcastConnectionError reason ans b).1.panelState = some .startingSidecar) :
    (broadcastConnectionError reason ans b).1.reconnectTicker = true ∨
      Dying (broadcastConnectionError reason ans b).1 := by
  revert hstarting
  unfold broadcastConnectionError
  split
  · refine panelConnectionError_underWay (b := (handleConnectionError ans b).1) ?_
    intro hstarting hattempts
    by_cases hremain : 0 < b.connectAttemptsRemaining
    · exact (handleConnectionError_handled ans h hremain).underWay hstarting
    · rw [handleConnectionError_none hremain] at hattempts
      exact absurd hattempts hremain
  · obtain ⟨c, hc⟩ : ∃ c, c = (panelConnectionError reason ans.panel b).1 := ⟨_, rfl⟩
    have hsound : Sound c := hc ▸ h.onlyExits (panelConnectionError_onlyExits reason ans.panel b)
    show (handleConnectionError ans
      (panelConnectionError reason ans.panel b).1).1.panelState = _ → _
    intro hstarting
    show (handleConnectionError ans (panelConnectionError reason ans.panel b).1).1.reconnectTicker
      = true ∨ Dying (handleConnectionError ans (panelConnectionError reason ans.panel b).1).1
    rw [← hc] at hstarting ⊢
    by_cases hremain : 0 < c.connectAttemptsRemaining
    · exact (handleConnectionError_handled ans hsound hremain).underWay hstarting
    · rw [handleConnectionError_none hremain] at hstarting ⊢
      rw [hc] at hstarting hremain ⊢
      refine panelConnectionError_underWay (fun _ hattempts => absurd ?_ hremain) hstarting
      rcases panelConnectionError_cases reason ans.panel b with ⟨d, hage, -, -, hd⟩ | ⟨d, hage, hd⟩
      · rw [hd, hage.connectAttemptsRemaining]
        exact hattempts
      · rw [hd]
        exact hage.connectAttemptsRemaining ▸ hattempts

/-- **Every event** leaves something under way while the panel is starting. -/
theorem event_underWay (T : TextFunctions) (event : Event) (hsound : Sound b)
    (h : b.loaded = true → UnderWay b) (henabled : event.enabled b = true)
    (hloaded : (event.op T b).1.loaded = true) : UnderWay (event.op T b).1 := by
  cases event with
  | construct w ans =>
    rcases construct_cases w ans b with ⟨c, -, -, hresult⟩ | ⟨c, -, -, hresult⟩
    · intro hstarting
      simp only [Event.op] at hstarting
      rw [hresult] at hstarting
      cases setState_shows _ hstarting
    · simp only [Event.op]
      rw [hresult]
      exact (ensureBackend_tried ans _).1.underWay
  | destruct =>
    intro hstarting
    cases hstarting
  | reconnect ans => exact (ensureBackend_tried ans _).1.underWay
  | panel event =>
    intro hstarting
    have hbefore := panelOp_starting T event hstarting
    have hunder := h (Bool.and_eq_true_iff.mp henabled).1 hbefore
    obtain ⟨p, f, heq⟩ := panelOp_frame T event b
    have hop : ((Event.panel event).op T b).1 = { b with panel := p, forge := f } := heq
    rw [hop]
    exact hunder
  | socketConnected number =>
    have hunder := h (Bool.and_eq_true_iff.mp henabled).1
    simp only [Event.op, handleSocketConnected, fromSocket]
    split
    · intro hstarting
      rcases handleConnected_shows _ hstarting with hshows | hshows <;> cases hshows
    · exact hunder
  | socketConnectionError number reason ans =>
    have hunder := h (Bool.and_eq_true_iff.mp henabled).1
    simp only [Event.op, handleSocketConnectionError, fromSocket]
    split
    · intro hstarting
      refine .inr (broadcastConnectionError_underWay (b := { b with socket := none }) ?_ hstarting)
      exact hsound.onlyExits (o := []) ⟨rfl, .refl _, rfl, rfl⟩
    · exact hunder
  | socketClosed number completed =>
    have hunder := h (Bool.and_eq_true_iff.mp henabled).1
    simp only [Event.op, handleSocketClosed, fromSocket]
    split
    · intro hstarting
      rcases handleClosed_shows _ hstarting with hshows | hshows <;> cases hshows
    · exact hunder
  | reconnectTicker ans => exact (tryConnect_tried ans _).1.underWay
  | watchdogTick w =>
    rcases watchdogTick_cases w b with hage | ⟨c, m, message, hage, hc⟩
    · exact (h (hage.loaded ▸ hloaded)).aged hage
    · intro hstarting
      simp only [Event.op] at hstarting
      rw [hc] at hstarting
      cases enterErrorState_shows _ _ hstarting
  | meanwhile w => exact (h hloaded).aged (meanwhile_aged w b)
  | loaded key ans => exact h henabled
  | spawnTick world turns => exact h henabled
  | shutdown completed w => cases hloaded

/-- **The panel is not left starting**: in every run, while it says so there is a socket, a retry
is pending, or the watchdog is about to see that the process exited. -/
theorem starting_under_way (T : TextFunctions) {events : List Event} {os : List BringUpAction}
    (h : exec (bringUpStep T) start events = some (b, os)) (hloaded : b.loaded = true)
    (hstarting : b.panelState = some .startingSidecar) :
    b.socket.isSome = true ∨ b.reconnectTicker = true ∨ Dying b := by
  have hinvariant : Sound b ∧ (b.loaded = true → UnderWay b) := by
    refine run_keeps T (I := fun b => Sound b ∧ (b.loaded = true → UnderWay b)) ?_ ?_ h
    · rintro event b ⟨⟨hsound, hunder⟩, henabled⟩
      exact ⟨event_sound T event b ⟨hsound, henabled⟩,
        event_underWay T event hsound hunder henabled⟩
    · refine ⟨start_sound, fun _ hstarting => ?_⟩
      cases hstarting
  exact hinvariant.2 hloaded hstarting

end Progress

/-- The sidecar is launched, and exits at once. -/
def exitsAtOnce : FailureAnswers :=
  { startsUp with moduleFirst := false, launched := ⟨fun _ => true, none⟩ }

def dyingRun : List Event :=
  [.construct still stillAttempt, .socketConnectionError 0 "refused" exitsAtOnce]

theorem starting_under_way_dying :
    ∃ b os, exec (bringUpStep decimalTexts) start dyingRun = some (b, os) ∧ b.live = [] ∧
      (b.socket.isSome = true ∨ b.reconnectTicker = true ∨ Dying b) := by
  have hrun : (exec (bringUpStep decimalTexts) start dyingRun).map (fun p =>
      (p.1.live, p.1.loaded, p.1.panelState)) = some ([], true, some .startingSidecar) := by
    decide +kernel
  obtain ⟨⟨b, os⟩, hexec, hends⟩ := Option.map_eq_some_iff.mp hrun
  obtain ⟨hlive, hends⟩ := Prod.mk.inj hends
  obtain ⟨hloaded, hstarting⟩ := Prod.mk.inj hends
  exact ⟨b, os, hexec, hlive, starting_under_way decimalTexts hexec hloaded hstarting⟩

/-! ### Announced connections -/

/-- A socket is announced when it is open, or was. -/
def Linked (b : BringUp) : Prop :=
  ∀ s, b.socket = some s → s.announced = true → s.link.opened = true

/-- While the panel is starting no connection is announced. -/
def Unannounced (b : BringUp) : Prop :=
  b.panelState = some .startingSidecar → ∀ s, b.socket = some s → s.announced = false

/-- Reconnect is not pressed over a connection that is open and announced. -/
def Calm (b : BringUp) : Event → Prop
  | .reconnect _ => b.socket.any (fun s => s.announced && s.link = .open) = false
  | _ => True

instance (b : BringUp) : (event : Event) → Decidable (Calm b event)
  | .reconnect _ => inferInstanceAs (Decidable (_ = false))
  | .construct _ _ | .destruct | .panel _ | .socketConnected _ | .socketConnectionError _ _ _
  | .socketClosed _ _ | .reconnectTicker _ | .watchdogTick _ | .meanwhile _ | .loaded _ _
  | .spawnTick _ _ | .shutdown _ _ => inferInstanceAs (Decidable True)

section Announced

variable {b c : BringUp}

theorem Linked.aged (h : Linked b) (hage : Aged b c) : Linked c := by
  intro s' hs' hannounced
  obtain ⟨s, hs, hlater⟩ := hage.socket s' hs'
  exact hlater.opened (h s hs (hlater.announced ▸ hannounced))

theorem Unannounced.aged (h : Unannounced b) (hage : Aged b c) : Unannounced c := by
  intro hstarting s' hs'
  obtain ⟨s, hs, hlater⟩ := hage.socket s' hs'
  rw [panelState, hage.panel] at hstarting
  rw [hlater.announced]
  exact h hstarting s hs

theorem Tried.linked (h : Tried b c) : Linked c := by
  intro s' hs' hannounced
  rcases h.socket with ⟨s, s₁, -, hs₁, -, -, hlink, -⟩ | ⟨hnew, -⟩
  · rw [hs'] at hs₁
    rw [Option.some.inj hs₁, hlink]
    rfl
  · rw [hs'] at hnew
    rw [Option.some.inj hnew] at hannounced
    cases hannounced

/-- An attempt finds no announced connection unless an open one was announced before. -/
theorem Tried.unannounced (h : Tried b c) (hlinked : Linked b)
    (hopen : ∀ s, b.socket = some s → s.announced = true → s.link ≠ .open) :
    ∀ s, c.socket = some s → s.announced = false := by
  intro s' hs'
  rcases h.socket with ⟨s, s₁, hs, hs₁, hlater, hlost, -, -⟩ | ⟨hnew, -⟩
  · rw [hs'] at hs₁
    rw [Option.some.inj hs₁, hlater.announced, Bool.eq_false_iff]
    intro hannounced
    have hopened := hlinked s hs hannounced
    cases hlink : s.link with
    | «open» => exact hopen s hs hannounced hlink
    | lost => exact hlost hlink
    | connecting | failed =>
      rw [hlink] at hopened
      cases hopened
  · rw [hs'] at hnew
    rw [Option.some.inj hnew]

theorem linked_none (hsocket : b.socket = none) : Linked b := by
  intro s hs
  rw [hsocket] at hs
  cases hs

theorem unannounced_none (hsocket : b.socket = none) : Unannounced b := by
  intro _ s hs
  rw [hsocket] at hs
  cases hs

/-- What the callback of the present socket requires. -/
theorem admitted {number : ℕ} {requires : Socket → Bool} (h : b.admits number requires = true)
    (hnumber : b.socket.any (·.number = number) = true) {s : Socket} (hs : b.socket = some s) :
    requires s = true := by
  rw [hs, Option.any_some] at hnumber
  rw [admits, hs, Option.all_some, of_decide_eq_true hnumber] at h
  simpa using h

/-- **Every event** but a press of Reconnect over an announced connection. -/
theorem event_unannounced (T : TextFunctions) (event : Event) (hsound : Sound b)
    (hlinked : Linked b) (h : Unannounced b) (hcalm : Calm b event)
    (henabled : event.enabled b = true) :
    Linked (event.op T b).1 ∧ Unannounced (event.op T b).1 := by
  cases event with
  | construct w ans =>
    rcases construct_cases w ans b with ⟨c, hage, -, hresult⟩ | ⟨c, hage, hconnected, hresult⟩
    · have hlinked' : Linked c := Linked.aged (b := { b with panel := some .start }) hlinked hage
      simp only [Event.op]
      rw [hresult]
      refine ⟨hlinked', fun hstarting => ?_⟩
      cases setState_shows _ hstarting
    · have hlinked' : Linked c := Linked.aged (b := { b with panel := some .start }) hlinked hage
      have htried := (ensureBackend_tried ans (withPanel (·.setState .startingSidecar) c).1).1
      simp only [Event.op]
      rw [hresult]
      refine ⟨htried.linked, fun _ => htried.unannounced hlinked' fun s hs _ hopen => ?_⟩
      have hfound : c.isConnected = true := by
        have hs' : c.socket = some s := hs
        rw [isConnected, hs', Option.any_some]
        exact decide_eq_true hopen
      rw [hconnected] at hfound
      cases hfound
  | destruct =>
    refine ⟨hlinked, fun hstarting => ?_⟩
    cases hstarting
  | reconnect ans =>
    have htried := (ensureBackend_tried ans (withPanel (·.setState .startingSidecar) b).1).1
    refine ⟨htried.linked, fun _ => htried.unannounced hlinked fun s hs hannounced hopen => ?_⟩
    have hs' : b.socket = some s := hs
    have hcalm' : b.socket.any (fun s => s.announced && s.link = .open) = false := hcalm
    rw [hs', Option.any_some, hannounced, Bool.true_and] at hcalm'
    exact of_decide_eq_false hcalm' hopen
  | panel event =>
    obtain ⟨p, f, heq⟩ := panelOp_frame T event b
    have hop : ((Event.panel event).op T b).1 = { b with panel := p, forge := f } := heq
    refine ⟨hop ▸ hlinked, fun hstarting => ?_⟩
    have hbefore := h (panelOp_starting T event hstarting)
    rw [hop]
    exact hbefore
  | socketConnected number =>
    simp only [Event.op, handleSocketConnected, fromSocket]
    split
    · rename_i hnumber
      refine ⟨fun s' hs' _ => ?_, fun hstarting => ?_⟩
      · obtain ⟨s, hs, rfl⟩ := Option.map_eq_some_iff.mp hs'
        exact admitted (Bool.and_eq_true_iff.mp henabled).2 hnumber hs |> Bool.and_eq_true_iff.mp
          |>.1
      · rcases handleConnected_shows _ hstarting with hshows | hshows <;> cases hshows
    · exact ⟨hlinked, h⟩
  | socketConnectionError number reason ans =>
    simp only [Event.op, handleSocketConnectionError, fromSocket]
    split
    · have hnone := broadcastConnectionError_socket_none reason ans
        (b := { b with socket := none }) (hsound.onlyExits (o := []) ⟨rfl, .refl _, rfl, rfl⟩) rfl
      exact ⟨linked_none hnone, unannounced_none hnone⟩
    · exact ⟨hlinked, h⟩
  | socketClosed number completed =>
    simp only [Event.op, handleSocketClosed, fromSocket]
    split
    · exact ⟨linked_none rfl, unannounced_none rfl⟩
    · exact ⟨hlinked, h⟩
  | reconnectTicker ans =>
    have htried := (tryConnect_tried ans { b with reconnectTicker := false }).1
    refine ⟨htried.linked, fun hstarting => ?_⟩
    have hbefore : b.panelState = some .startingSidecar :=
      (congrArg (Option.map Panel.state) htried.panel).symm.trans hstarting
    refine htried.unannounced hlinked fun s hs hannounced => ?_
    rw [h hbefore s hs] at hannounced
    cases hannounced
  | watchdogTick w =>
    rcases watchdogTick_cases w b with hage | ⟨c, m, message, hage, hc⟩
    · exact ⟨hlinked.aged hage, h.aged hage⟩
    · have hop : ((Event.watchdogTick w).op T b).1 = { c with
          manager := m
          panel := c.panel.map (·.enterErrorState message) } := hc
      have hlinked' : Linked c := hlinked.aged hage
      rw [hop]
      refine ⟨hlinked', fun hstarting => ?_⟩
      cases enterErrorState_shows _ _ hstarting
  | meanwhile w => exact ⟨hlinked.aged (meanwhile_aged w b), h.aged (meanwhile_aged w b)⟩
  | loaded key ans => exact ⟨hlinked, h⟩
  | spawnTick world turns => exact ⟨hlinked, h⟩
  | shutdown completed w =>
    have hnone := terminate_socket_none w
      (b := (withForge (onSpawner none (Plugin.shutdown completed))
        { b with reconnectTicker := false, socket := none }).1) rfl
    exact ⟨linked_none hnone, unannounced_none hnone⟩

/-- **The panel waits for a callback**: if Reconnect is never pressed over an announced connection,
a starting panel has a socket that is not announced, or a retry or a report is to come. -/
theorem starting_awaits (T : TextFunctions) {events : List Event} {os : List BringUpAction}
    (h : exec (bringUpStep T) start events = some (b, os))
    (hcalm : Along (bringUpStep T) Calm start events) (hloaded : b.loaded = true)
    (hstarting : b.panelState = some .startingSidecar) :
    (∃ s, b.socket = some s ∧ s.announced = false) ∨ b.reconnectTicker = true ∨ Dying b := by
  have hunannounced : Sound b ∧ Linked b ∧ Unannounced b := by
    refine (exec_invariant_along (I := fun b => Sound b ∧ Linked b ∧ Unannounced b)
      (Q := fun _ => True) ?_ ⟨start_sound, linked_none rfl, unannounced_none rfl⟩ hcalm h).1
    rintro b event b' o ⟨hsound, hlinked, hunannounced⟩ hcalm hstep
    obtain ⟨henabled, hop⟩ := Option.ite_none_right_eq_some.mp hstep
    have hb' : b' = (event.op T b).1 := congrArg Prod.fst (Option.some.inj hop).symm
    rw [hb']
    exact ⟨⟨event_sound T event b ⟨hsound, henabled⟩,
      event_unannounced T event hsound hlinked hunannounced hcalm henabled⟩, fun _ _ => trivial⟩
  rcases starting_under_way T h hloaded hstarting with hsocket | hwaiting
  · obtain ⟨s, hs⟩ := Option.isSome_iff_exists.mp hsocket
    exact .inl ⟨s, hs, hunannounced.2.2 hstarting s hs⟩
  · exact .inr hwaiting

end Announced

theorem starting_awaits_dying :
    ∃ b os, exec (bringUpStep decimalTexts) start dyingRun = some (b, os) ∧
      b.socket.isSome = false ∧
      ((∃ s, b.socket = some s ∧ s.announced = false) ∨ b.reconnectTicker = true ∨ Dying b) := by
  have hrun : (exec (bringUpStep decimalTexts) start dyingRun).map (fun p =>
      (p.1.socket.isSome, p.1.loaded, p.1.panelState)) =
        some (false, true, some .startingSidecar) := by
    decide +kernel
  obtain ⟨⟨b, os⟩, hexec, hends⟩ := Option.map_eq_some_iff.mp hrun
  obtain ⟨hsocket, hends⟩ := Prod.mk.inj hends
  obtain ⟨hloaded, hstarting⟩ := Prod.mk.inj hends
  exact ⟨b, os, hexec, hsocket,
    starting_awaits decimalTexts hexec (by decide +kernel) hloaded hstarting⟩

/-- Another server owns the port: the retry connects to it, the process that was launched exits, and
Reconnect is pressed in the error that the watchdog reports. -/
def stuckRun : List Event :=
  bootRun ++ [.meanwhile ⟨fun _ => true, none⟩, .watchdogTick still, .reconnect stillAttempt]

/-- **A panel that is stuck**, as the last event is not calm: it says that it is starting over a
connection that is open and announced, with no retry and no report to come. -/
theorem stuck_over_connection :
    ∃ b os, exec (bringUpStep decimalTexts) start stuckRun = some (b, os) ∧
      b.panelState = some .startingSidecar ∧ b.isConnected = true ∧
      b.socket.any (·.announced) = true ∧ b.reconnectTicker = false ∧ b.manager.state = .dead := by
  have hrun : (exec (bringUpStep decimalTexts) start stuckRun).map (fun p =>
      (p.1.panelState, p.1.isConnected, p.1.socket.any (·.announced), p.1.reconnectTicker,
        p.1.manager.state)) = some (some .startingSidecar, true, true, false, .dead) := by
    decide +kernel
  obtain ⟨⟨b, os⟩, hexec, hends⟩ := Option.map_eq_some_iff.mp hrun
  simp only [Prod.mk.injEq] at hends
  exact ⟨b, os, hexec, hends⟩

/-! ### Online -/

/-- While Generate or Cancel is enabled there is a socket that is open, or was until its `OnClosed`
comes. -/
def Online (b : BringUp) : Prop :=
  b.panelState = some .connectedIdle ∨ b.panelState = some .generating →
    ∃ s, b.socket = some s ∧ s.link.opened = true

/-- A message that makes the panel idle is not broadcast after its connection is gone, and no retry
finds a connection lost whose `OnClosed` has not come. -/
def Orderly (b : BringUp) : Event → Prop
  | .panel (.message m _ _) => idles m = true → b.socket.any (·.link.opened) = true
  | .reconnectTicker ans =>
    b.socket.any (·.link = .lost) = false ∧ ans.attempt.link ≠ some .lost
  | _ => True

instance (b : BringUp) : (event : Event) → Decidable (Orderly b event)
  | .panel (.message _ _ _) => inferInstanceAs (Decidable (_ → _))
  | .reconnectTicker _ => inferInstanceAs (Decidable (_ ∧ _))
  | .panel (.typed _ _ _) | .panel (.generate _) | .panel (.newVariation _ _ _)
  | .panel (.cancel _ _) | .construct _ _ | .destruct | .reconnect _ | .socketConnected _
  | .socketConnectionError _ _ _ | .socketClosed _ _ | .watchdogTick _ | .meanwhile _
  | .loaded _ _ | .spawnTick _ _ | .shutdown _ _ => inferInstanceAs (Decidable True)

section Online

variable {b c : BringUp}

theorem Online.aged (h : Online b) (hage : Aged b c) : Online c := by
  intro hstate
  rw [panelState, hage.panel] at hstate
  obtain ⟨s, hs, hopened⟩ := h hstate
  have hisSome := hage.isSome
  rw [hs] at hisSome
  obtain ⟨s', hs'⟩ := Option.isSome_iff_exists.mp hisSome
  obtain ⟨s₀, hs₀, hlater⟩ := hage.socket s' hs'
  rw [hs] at hs₀
  rw [← Option.some.inj hs₀] at hlater
  exact ⟨s', hs', hlater.opened hopened⟩

/-- A panel that shows a press was idle or generating before it. -/
theorem press_before (T : TextFunctions) {event : PanelEvent}
    (hpress : ∀ m requests completed, event ≠ .message m requests completed)
    (henabled : b.panelEnabled event = true)
    (h : (panelOp T event b).1.panelState = some .connectedIdle ∨
      (panelOp T event b).1.panelState = some .generating) :
    b.panelState = some .connectedIdle ∨ b.panelState = some .generating := by
  have hgenerate : b.panel.any isGenerateEnabled = true →
      b.panelState = some .connectedIdle := by
    intro hany
    obtain ⟨p, hp, hidle⟩ := (Option.any_eq_true _ _).mp hany
    rw [panelState, hp]
    exact congrArg some (of_decide_eq_true hidle)
  cases event with
  | typed =>
    have hsame : ∀ p t r, (panelOp T (.typed p t r) b).1.panelState = b.panelState := by
      intro p t r
      simp only [panelOp, withEditor, panelState]
      cases hpanel : b.panel with
      | none => simp only [hpanel]
      | some p => rfl
    rwa [hsame] at h
  | generate ans => exact .inl (hgenerate (Bool.and_eq_true_iff.mp henabled).1)
  | newVariation _ _ ans => exact .inl (hgenerate (Bool.and_eq_true_iff.mp henabled).1)
  | cancel =>
    obtain ⟨p, hp, hgenerating⟩ := (Option.any_eq_true _ _).mp henabled
    refine .inr ?_
    rw [panelState, hp]
    exact congrArg some (of_decide_eq_true hgenerating)
  | message m requests completed => exact absurd rfl (hpress m requests completed)

/-- What the handlers of a failed attempt leave the panel showing. -/
theorem Handled.shows {state : PanelState} (h : Handled b c) (hstate : c.panelState = some state) :
    b.panelState = some state ∨ state = .startingSidecar ∨ state = .error := by
  cases h with
  | retry c hc =>
    have hsame : c.panelState = some state := hstate
    rw [panelState, hc.panel] at hsame
    exact .inl hsame
  | launched c m d retry hc _ _ hd _ =>
    have hstarting : (c.panel.map (·.setState .startingSidecar)).map (·.state) = some state := by
      rw [panelState, hd.panel] at hstate
      exact hstate
    exact .inr (.inl (setState_shows _ hstarting))
  | failed c m d hc hd =>
    rw [panelState, hd.panel] at hstate
    exact .inr (.inr (enterErrorState_shows _ _ hstate))

theorem panelConnectionError_shows {state : PanelState} {reason : String} {w : Meanwhile}
    (hstate : (panelConnectionError reason w b).1.panelState = some state) :
    b.panelState = some state ∨ state = .error := by
  rcases panelConnectionError_cases reason w b with ⟨c, hage, -, -, hc⟩ | ⟨c, -, hc⟩
  · rw [hc, panelState, hage.panel] at hstate
    exact .inl hstate
  · rw [hc] at hstate
    exact .inr (enterErrorState_shows _ _ hstate)

theorem handleConnectionError_shows {state : PanelState} {ans : FailureAnswers} (h : Sound b)
    (hstate : (handleConnectionError ans b).1.panelState = some state) :
    b.panelState = some state ∨ state = .startingSidecar ∨ state = .error := by
  by_cases hremain : 0 < b.connectAttemptsRemaining
  · exact (handleConnectionError_handled ans h hremain).shows hstate
  · rw [handleConnectionError_none hremain] at hstate
    exact .inl hstate

theorem broadcastConnectionError_shows {state : PanelState} {reason : String}
    {ans : FailureAnswers} (h : Sound b)
    (hstate : (broadcastConnectionError reason ans b).1.panelState = some state) :
    b.panelState = some state ∨ state = .startingSidecar ∨ state = .error := by
  revert hstate
  unfold broadcastConnectionError
  split
  · intro hstate
    rcases panelConnectionError_shows hstate with hsame | herror
    · exact handleConnectionError_shows h hsame
    · exact .inr (.inr herror)
  · intro hstate
    rcases handleConnectionError_shows
      (h.onlyExits (panelConnectionError_onlyExits reason ans.panel b)) hstate with hsame | hshows
    · rcases panelConnectionError_shows hsame with hsame | herror
      · exact .inl hsame
      · exact .inr (.inr herror)
    · exact .inr hshows

/-- A retry that finds its connection open changes nothing but the links. -/
theorem tryConnect_open {ans : AttemptAnswers} {s : Socket} (hs : b.socket = some s)
    (hopen : s.link = .open) (hlost : ans.attempt.link ≠ some .lost) :
    (tryConnect ans b).1 = (meanwhile ans.attempt b).1 := by
  have hturned : (turned ans.attempt.link s).link = .open := by
    unfold turned
    split
    · exact hopen
    · split
      · rename_i link hlink hturns
        rw [hopen] at hturns
        cases link with
        | lost => exact absurd hlink hlost
        | «open» => rfl
        | connecting | failed => cases hturns
      · exact hopen
  have hconnected : (meanwhile ans.attempt b).1.isConnected = true := by
    rw [isConnected, meanwhile, hs]
    exact decide_eq_true hturned
  simp only [tryConnect, look, seq, hconnected, if_true]
  rfl

/-- The socket of a failed attempt was never open, so that the buttons were not enabled. -/
theorem socketConnectionError_online {number : ℕ} {reason : String} {ans : FailureAnswers}
    (hsound : Sound b) (h : Online b)
    (hadmits : b.admits number (fun s => !s.link.opened) = true) :
    Online (handleSocketConnectionError number reason ans b).1 := by
  simp only [handleSocketConnectionError, fromSocket]
  split
  · rename_i hnumber
    intro hstate
    obtain ⟨s, hs, -⟩ := (Option.any_eq_true _ _).mp hnumber
    have hreset : Sound { b with socket := none } :=
      hsound.onlyExits (o := []) ⟨rfl, .refl _, rfl, rfl⟩
    have hbefore : b.panelState = some .connectedIdle ∨ b.panelState = some .generating := by
      rcases hstate with hstate | hstate
      · rcases broadcastConnectionError_shows hreset hstate with hsame | hshows | hshows
        · exact .inl hsame
        · cases hshows
        · cases hshows
      · rcases broadcastConnectionError_shows hreset hstate with hsame | hshows | hshows
        · exact .inr hsame
        · cases hshows
        · cases hshows
    obtain ⟨s', hs', hopened⟩ := h hbefore
    have hclosed := admitted hadmits hnumber hs'
    rw [hopened] at hclosed
    cases hclosed
  · exact h

/-- A retry over a connection that was open finds it open still, and changes nothing. -/
theorem reconnectTicker_online {ans : AttemptAnswers} (h : Online b)
    (horderly : Orderly b (.reconnectTicker ans)) :
    Online (tryConnect ans { b with reconnectTicker := false }).1 := by
  obtain ⟨hlost, hmeanwhile⟩ := horderly
  have htried := (tryConnect_tried ans { b with reconnectTicker := false }).1
  intro hstate
  have hbefore : b.panelState = some .connectedIdle ∨ b.panelState = some .generating := by
    have hpanel : (tryConnect ans { b with reconnectTicker := false }).1.panelState =
        b.panelState := congrArg (Option.map Panel.state) htried.panel
    rwa [hpanel] at hstate
  obtain ⟨s, hs, hopened⟩ := h hbefore
  have hopen : s.link = .open := by
    cases hlink : s.link with
    | «open» => rfl
    | lost =>
      rw [hs, Option.any_some] at hlost
      exact absurd hlink (of_decide_eq_false hlost)
    | connecting | failed =>
      rw [hlink] at hopened
      cases hopened
  have hresult : (tryConnect ans { b with reconnectTicker := false }).1 =
      (meanwhile ans.attempt { b with reconnectTicker := false }).1 :=
    tryConnect_open (b := { b with reconnectTicker := false }) hs hopen hmeanwhile
  have honline : Online { b with reconnectTicker := false } := h
  rw [hresult] at hstate ⊢
  exact honline.aged (meanwhile_aged _ _) hstate

/-- **Every orderly event** keeps the panel's buttons over a connection. -/
theorem event_online (T : TextFunctions) (event : Event) (hsound : Sound b)
    (h : b.loaded = true → Online b) (horderly : Orderly b event)
    (henabled : event.enabled b = true) (hloaded : (event.op T b).1.loaded = true) :
    Online (event.op T b).1 := by
  cases event with
  | construct w ans =>
    rcases construct_cases w ans b with ⟨c, -, hconnected, hresult⟩ | ⟨c, -, -, hresult⟩
    · simp only [Event.op]
      rw [hresult]
      intro _
      obtain ⟨s, hs, hopen⟩ := (Option.any_eq_true _ _).mp hconnected
      exact ⟨s, hs, by rw [of_decide_eq_true hopen]; rfl⟩
    · have htried := (ensureBackend_tried ans (withPanel (·.setState .startingSidecar) c).1).1
      simp only [Event.op]
      rw [hresult]
      intro hstate
      rw [panelState, htried.panel] at hstate
      rcases hstate with hstate | hstate <;> cases setState_shows _ hstate
  | destruct =>
    intro hstate
    rcases hstate with hstate | hstate <;> cases hstate
  | reconnect ans =>
    have htried := (ensureBackend_tried ans (withPanel (·.setState .startingSidecar) b).1).1
    intro hstate
    have hpanel : ((Event.reconnect ans).op T b).1.panelState =
        (b.panel.map (·.setState .startingSidecar)).map (·.state) :=
      congrArg (Option.map Panel.state) htried.panel
    rw [hpanel] at hstate
    rcases hstate with hstate | hstate <;> cases setState_shows _ hstate
  | panel event =>
    obtain ⟨p, f, heq⟩ := panelOp_frame T event b
    have hop : ((Event.panel event).op T b).1 = { b with panel := p, forge := f } := heq
    obtain ⟨hmodule, hpressed⟩ := Bool.and_eq_true_iff.mp henabled
    intro hstate
    have hsocket : ((Event.panel event).op T b).1.socket = b.socket := by rw [hop]
    rw [hsocket]
    cases event with
    | message m requests completed =>
      have hidles : idles m = true → ∃ s, b.socket = some s ∧ s.link.opened = true :=
        fun hidle => (Option.any_eq_true _ _).mp (horderly hidle)
      rcases hstate with hstate | hstate
      · rcases message_shows T hstate with hsame | herror | ⟨-, hidle⟩
        · exact h hmodule (.inl hsame)
        · cases herror
        · exact hidles hidle
      · rcases message_shows T hstate with hsame | herror | ⟨-, hidle⟩
        · exact h hmodule (.inr hsame)
        · cases herror
        · exact hidles hidle
    | _ =>
      exact h hmodule (press_before T (by intro m r c heq; cases heq) hpressed hstate)
  | socketConnected number =>
    simp only [Event.op, handleSocketConnected, fromSocket]
    split
    · rename_i hnumber
      intro _
      obtain ⟨s, hs, -⟩ := (Option.any_eq_true _ _).mp hnumber
      have hopened := admitted (Bool.and_eq_true_iff.mp henabled).2 hnumber hs
      exact ⟨{ s with announced := true }, congrArg (Option.map _) hs,
        (Bool.and_eq_true_iff.mp hopened).1⟩
    · exact h (Bool.and_eq_true_iff.mp henabled).1
  | socketConnectionError number reason ans =>
    obtain ⟨hmodule, hadmits⟩ := Bool.and_eq_true_iff.mp henabled
    exact socketConnectionError_online hsound (h hmodule) hadmits
  | socketClosed number completed =>
    simp only [Event.op, handleSocketClosed, fromSocket]
    split
    · intro hstate
      rcases hstate with hstate | hstate
      · rcases handleClosed_shows _ hstate with hshows | hshows <;> cases hshows
      · rcases handleClosed_shows _ hstate with hshows | hshows <;> cases hshows
    · exact h (Bool.and_eq_true_iff.mp henabled).1
  | reconnectTicker ans =>
    exact reconnectTicker_online (h (Bool.and_eq_true_iff.mp henabled).1) horderly
  | watchdogTick w =>
    rcases watchdogTick_cases w b with hage | ⟨c, m, message, hage, hc⟩
    · exact (h (hage.loaded ▸ hloaded)).aged hage
    · have hop : ((Event.watchdogTick w).op T b).1 = { c with
          manager := m
          panel := c.panel.map (·.enterErrorState message) } := hc
      rw [hop]
      intro hstate
      rcases hstate with hstate | hstate <;> cases enterErrorState_shows _ _ hstate
  | meanwhile w => exact (h hloaded).aged (meanwhile_aged w b)
  | loaded key ans => exact h henabled
  | spawnTick world turns => exact h henabled
  | shutdown completed w => cases hloaded

/-- **The buttons are over a connection**: in every orderly run Generate and Cancel are enabled only
while there is a socket that is open, or was until its `OnClosed` comes. -/
theorem online_when_connected (T : TextFunctions) {events : List Event} {os : List BringUpAction}
    {p : Panel} (h : exec (bringUpStep T) start events = some (b, os))
    (horderly : Along (bringUpStep T) Orderly start events) (hloaded : b.loaded = true)
    (hpanel : b.panel = some p) (henabled : (isGenerateEnabled p || isCancelEnabled p) = true) :
    ∃ s, b.socket = some s ∧ s.link.opened = true := by
  have honline : Sound b ∧ (b.loaded = true → Online b) := by
    refine (exec_invariant_along (I := fun b => Sound b ∧ (b.loaded = true → Online b))
      (Q := fun _ => True) ?_ ⟨start_sound, fun _ hstate => ?_⟩ horderly h).1
    · rintro b event b' o ⟨hsound, honline⟩ horderly hstep
      obtain ⟨henabled, hop⟩ := Option.ite_none_right_eq_some.mp hstep
      have hb' : b' = (event.op T b).1 := congrArg Prod.fst (Option.some.inj hop).symm
      rw [hb']
      exact ⟨⟨event_sound T event b ⟨hsound, henabled⟩,
        event_online T event hsound honline horderly henabled⟩, fun _ _ => trivial⟩
    · rcases hstate with hstate | hstate <;> cases hstate
  refine honline.2 hloaded ?_
  rw [panelState, hpanel]
  rcases (Bool.or_eq_true _ _).mp henabled with hgenerate | hcancel
  · exact .inl (congrArg some (of_decide_eq_true hgenerate))
  · exact .inr (congrArg some (of_decide_eq_true hcancel))

end Online

theorem online_when_connected_boot :
    ∃ b os p, exec (bringUpStep decimalTexts) start bootRun = some (b, os) ∧ b.panel = some p ∧
      isGenerateEnabled p = true ∧ ∃ s, b.socket = some s ∧ s.link.opened = true := by
  have hrun : (exec (bringUpStep decimalTexts) start bootRun).map (fun p =>
      (p.1.loaded, p.1.panel.map isGenerateEnabled)) = some (true, some true) := by
    decide +kernel
  obtain ⟨⟨b, os⟩, hexec, hends⟩ := Option.map_eq_some_iff.mp hrun
  obtain ⟨hloaded, hends⟩ := Prod.mk.inj hends
  obtain ⟨p, hpanel, hgenerate⟩ := Option.map_eq_some_iff.mp hends
  exact ⟨b, os, p, hexec, hpanel, hgenerate, online_when_connected decimalTexts hexec
    (by decide +kernel) hloaded hpanel (by rw [hgenerate, Bool.true_or])⟩

end BringUp

end AetherForge.Plugin
