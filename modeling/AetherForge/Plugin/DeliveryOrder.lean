import AetherForge.Plugin.FramePipeline

/-!
# Delegates in arrival order

The delegates for messages are broadcast by the ticker, after the frames have gone through both
queues; `OnConnected` and `OnClosed` are broadcast by the socket's callback at once.  The two keep
the order of arrival when nothing of a connection is under way at its close, and nothing of an
earlier one when a connection opens; otherwise a frame can come after the `OnClosed` of its
connection.

* `Client.underWay` — the frames accepted and not yet broadcast, by their socket;
* `Client.Settled` — the condition on a close or a connect;
* `delivery_in_order` — runs that meet it broadcast in order of arrival.
-/

namespace AetherForge.Plugin

open Transition

/-! ### Frames under way -/

/-- The sockets of what a task holds. -/
def ParseWorker.sockets (w : ParseWorker) : List ℕ :=
  w.unparsed.map (·.socket) ++ w.unqueued.map (·.socket)

/-- The sockets of the frames that were accepted and whose message has not been broadcast. -/
def Client.underWay (c : Client) : List ℕ :=
  c.parsedInbound.map (·.socket) ++
    (c.workers.flatMap ParseWorker.sockets ++ c.rawInbound.map (·.socket))

/-- A close finds nothing of its connection under way, and a connect nothing of an earlier one;
events that are ignored find what they like. -/
def Client.Settled (c : Client) : ClientEvent → Prop
  | .socketClosed socket _ _ => c.socket = some socket → socket ∉ c.underWay
  | .socketConnected socket => c.socket = some socket → ∀ i ∈ c.underWay, ¬i < socket
  | _ => True

instance (c : Client) : (event : ClientEvent) → Decidable (c.Settled event)
  | .socketClosed socket _ _ =>
    inferInstanceAs (Decidable (c.socket = some socket → socket ∉ c.underWay))
  | .socketConnected socket =>
    inferInstanceAs (Decidable (c.socket = some socket → ∀ i ∈ c.underWay, ¬i < socket))
  | .connect _ _ => isTrue trivial
  | .disconnect => isTrue trivial
  | .socketConnectionError _ _ => isTrue trivial
  | .rawMessage _ _ => isTrue trivial
  | .dispatchTick => isTrue trivial
  | .gameThread => isTrue trivial
  | .worker _ => isTrue trivial

/-! ### What a step does -/

/-- What a delegate of a connection promises about all that is shown later: after `OnClosed`, no
message of the connection; after `OnConnected`, no message of an earlier one. -/
def ClientAction.Precludes : ClientAction → ClientAction → Prop
  | .onClosed socket _ _, .onMessage m => m.socket ≠ socket
  | .onConnected socket, .onMessage m => ¬m.socket < socket
  | _, _ => True

/-- What a step does to the frames under way and to the socket, and when it fires the delegates of
a connection. -/
structure Flows (c : Client) (event : ClientEvent) (o : List ClientAction) (c' : Client) :
    Prop where
  underWay : ∀ i ∈ c'.underWay, i ∈ c.underWay ∨ c.socket = some i
  message : ∀ m, .onMessage m ∈ o → m.socket ∈ c.underWay
  socket : (c'.sockets = c.sockets ∧ ∀ i, c'.socket = some i → c.socket = some i) ∨
    (c'.sockets = c.sockets + 1 ∧ c'.socket = some c.sockets)
  closed : ∀ socket code reason, .onClosed socket code reason ∈ o →
    event = .socketClosed socket code reason ∧ c.socket = some socket ∧ c'.socket = none ∧
      c'.underWay = c.underWay ∧ o = [.onClosed socket code reason]
  connected : ∀ socket, .onConnected socket ∈ o →
    event = .socketConnected socket ∧ c.socket = some socket ∧ c' = c ∧
      o = [.helloSent socket c.pendingHelloManifest, .onConnected socket]
  inTime : o.Pairwise ClientAction.Precludes

section Steps

variable {parse : String → ServerMessage} {c c' : Client} {event : ClientEvent}
  {o : List ClientAction}

/-- A step that shows nothing and leaves the sockets alone. -/
theorem Flows.silent (hunder : ∀ i ∈ c'.underWay, i ∈ c.underWay) (hsocket : c'.socket = c.socket)
    (hsockets : c'.sockets = c.sockets) : Flows c event [] c' where
  underWay i hi := .inl (hunder i hi)
  message m hm := by cases hm
  socket := .inl ⟨hsockets, fun i hi => hsocket ▸ hi⟩
  closed socket code reason h := by cases h
  connected socket h := by cases h
  inTime := .nil

theorem Flows.ignored : Flows c event [] c := .silent (fun _ hi => hi) rfl rfl

theorem handle_flows (h : c.handle event = some (c', o)) : Flows c event o c' := by
  cases event with
  | connect connected manifest =>
    simp only [Client.handle] at h
    split at h <;> cases h
    · exact .ignored
    · exact ⟨fun i hi => .inl hi, by simp, .inr ⟨rfl, rfl⟩, by simp, by simp, by simp⟩
  | disconnect =>
    cases h
    exact ⟨fun i hi => .inl hi, by simp, .inl ⟨rfl, by simp⟩, by simp, by simp, by simp⟩
  | socketConnected socket =>
    simp only [Client.handle, Client.fromSocket, Option.some.injEq] at h
    split at h <;> rename_i hsocket <;> cases h
    · refine ⟨fun i hi => .inl hi, by simp, .inl ⟨rfl, fun i hi => hi⟩, by simp, ?_,
        by simp [ClientAction.Precludes]⟩
      intro i hi
      simp only [List.mem_cons, reduceCtorEq, ClientAction.onConnected.injEq, List.not_mem_nil,
        or_false, false_or] at hi
      subst hi
      exact ⟨rfl, hsocket, rfl, rfl⟩
    · exact .ignored
  | socketConnectionError socket error =>
    simp only [Client.handle, Client.fromSocket, Option.some.injEq] at h
    split at h <;> cases h
    · exact ⟨fun i hi => .inl hi, by simp, .inl ⟨rfl, by simp⟩, by simp, by simp, by simp⟩
    · exact .ignored
  | socketClosed socket statusCode reason =>
    simp only [Client.handle, Client.fromSocket, Option.some.injEq] at h
    split at h <;> rename_i hsocket <;> cases h
    · refine ⟨fun i hi => .inl hi, by simp, .inl ⟨rfl, by simp⟩, ?_, by simp, by simp⟩
      intro i code reason hi
      cases List.mem_singleton.mp hi
      exact ⟨rfl, hsocket, rfl, rfl, rfl⟩
    · exact .ignored
  | rawMessage socket message =>
    simp only [Client.handle, Client.fromSocket, Option.some.injEq] at h
    split at h <;> rename_i hsocket <;> cases h
    · refine ⟨fun i hi => ?_, by simp, .inl ⟨rfl, fun i hi => hi⟩, by simp, by simp, by simp⟩
      simp only [Client.underWay, List.map_append, List.map_cons, List.map_nil, List.mem_append,
        List.mem_singleton] at hi ⊢
      rcases hi with hi | hi | hi | rfl
      · exact .inl (.inl hi)
      · exact .inl (.inr (.inl hi))
      · exact .inl (.inr (.inr hi))
      · exact .inr hsocket
    · exact .ignored
  | dispatchTick =>
    cases h
    exact .silent (fun i hi => hi) rfl rfl
  | gameThread => cases h
  | worker => cases h

theorem stepGameThread_flows (h : c.stepGameThread = some (c', o)) :
    Flows c .gameThread o c' := by
  unfold Client.stepGameThread at h
  split at h
  · cases h
  · split at h <;> cases h <;> exact .silent (fun i hi => hi) rfl rfl
  · cases h
    refine .silent (fun i hi => ?_) rfl rfl
    simpa [Client.underWay, ParseWorker.sockets, ParseWorker.unparsed, ParseWorker.unqueued]
      using hi
  · split at h <;> rename_i hqueue <;> cases h
    · exact .silent (fun i hi => hi) rfl rfl
    · refine ⟨fun i hi => .inl ?_, fun m hm => ?_, .inl ⟨rfl, fun i hi => hi⟩, by simp,
        by simp, by simp⟩
      · simp only [Client.underWay, List.mem_append] at hi ⊢
        rw [hqueue, List.map_cons, List.mem_cons]
        exact hi.imp_left .inr
      · cases List.mem_singleton.mp hm
        simp only [Client.underWay, hqueue, List.map_cons, List.cons_append]
        exact List.mem_cons_self

/-- What a task puts down was in its hands, or in a queue. -/
theorem mem_underWay_set {k : ℕ} {w' : ParseWorker} (hworkers : c'.workers = c.workers.set k w')
    (hparsed : ∀ i ∈ c'.parsedInbound.map (·.socket), i ∈ c.underWay)
    (hheld : ∀ i ∈ w'.sockets, i ∈ c.underWay)
    (hraw : ∀ i ∈ c'.rawInbound.map (·.socket), i ∈ c.underWay) :
    ∀ i ∈ c'.underWay, i ∈ c.underWay := by
  intro i hi
  rw [Client.underWay, hworkers, List.mem_append, List.mem_append] at hi
  rcases hi with hi | hi | hi
  · exact hparsed i hi
  · rcases ThreadPool.mem_flatMap_set hi with hi | hi
    · exact hheld i hi
    · exact List.mem_append_right _ (List.mem_append_left _ hi)
  · exact hraw i hi

theorem stepWorker_flows {k : ℕ} {w : ParseWorker} (hw : c.workers[k]? = some w)
    (h : c.stepWorker parse k w = some (c', o)) : Flows c (.worker k) o c' := by
  have hparsed : ∀ i ∈ c.parsedInbound.map (·.socket), i ∈ c.underWay :=
    fun i hi => List.mem_append_left _ hi
  have hraw : ∀ i ∈ c.rawInbound.map (·.socket), i ∈ c.underWay :=
    fun i hi => List.mem_append_right _ (List.mem_append_right _ hi)
  have hheld : ∀ i ∈ w.sockets, i ∈ c.underWay := fun i hi =>
    List.mem_append_right _ (List.mem_append_left _ (ThreadPool.mem_flatMap_of_getElem? hw hi))
  -- a task that empties its hands or keeps them empty
  have hempty : ∀ (c' : Client) (w' : ParseWorker), w'.sockets = [] →
      c'.workers = c.workers.set k w' → c'.parsedInbound = c.parsedInbound →
      c'.rawInbound = c.rawInbound → ∀ i ∈ c'.underWay, i ∈ c.underWay := by
    intro c' w' hnil hworkers hp hr
    refine mem_underWay_set hworkers (hp ▸ hparsed) ?_ (hr ▸ hraw)
    rw [hnil]
    simp
  cases w with
  | scheduled =>
    cases h
    exact .silent (hempty _ .dequeue rfl rfl rfl rfl) rfl rfl
  | dequeue =>
    simp only [Client.stepWorker] at h
    split at h <;> rename_i hqueue <;> cases h
    · exact .silent (hempty _ .clear rfl rfl rfl rfl) rfl rfl
    · rw [hqueue, List.map_cons, List.forall_mem_cons] at hraw
      refine .silent (mem_underWay_set rfl hparsed ?_ hraw.2) rfl rfl
      intro i hi
      cases List.mem_singleton.mp hi
      exact hraw.1
  | parse frame =>
    cases h
    have hstep : ∀ i ∈ (c.setWorker k (.enqueue (parseFrame parse frame))).underWay,
        i ∈ c.underWay := mem_underWay_set rfl hparsed hheld hraw
    exact ⟨fun i hi => .inl (hstep i hi), by simp, .inl ⟨rfl, fun i hi => hi⟩, by simp,
      by simp, by simp⟩
  | enqueue parsed =>
    cases h
    refine .silent (mem_underWay_set rfl ?_ (fun i hi => by cases hi) hraw) rfl rfl
    rw [List.map_append, List.forall_mem_append]
    exact ⟨hparsed, hheld⟩
  | clear =>
    cases h
    exact .silent (hempty _ .recheck rfl rfl rfl rfl) rfl rfl
  | recheck =>
    cases h
    refine .silent (hempty _ _ ?_ rfl rfl rfl) rfl rfl
    split <;> rfl
  | acquire =>
    simp only [Client.stepWorker] at h
    split at h <;> cases h
    · exact .silent (hempty _ .finished rfl rfl rfl rfl) rfl rfl
    · exact .silent (hempty _ .dequeue rfl rfl rfl rfl) rfl rfl
  | finished => cases h

/-- **What every step does.** -/
theorem stepClient_flows (h : stepClient parse c event = some (c', o)) : Flows c event o c' := by
  cases event with
  | gameThread => exact stepGameThread_flows h
  | worker k =>
    obtain ⟨w, hw, hstep⟩ := Option.bind_eq_some_iff.mp h
    exact stepWorker_flows hw hstep
  | _ => exact handle_flows (Option.ite_none_right_eq_some.mp h).2

end Steps

/-! ### Nothing late -/

/-- Everything before the `OnClosed` of a connection: all its frames, in order, as messages. -/
def AllDelivered (parse : String → ServerMessage) (shown : List ClientAction) (socket : ℕ) : Prop :=
  (broadcasts shown).filter (·.socket = socket) =
    ((acceptedFrames shown).map (parseFrame parse)).filter (·.socket = socket)

/-- The delegates fire in order of arrival. -/
structure InArrivalOrder (parse : String → ServerMessage) (os : List ClientAction) : Prop where
  delivered : ∀ pre socket code reason post, os = pre ++ .onClosed socket code reason :: post →
    AllDelivered parse pre socket
  inTime : os.Pairwise ClientAction.Precludes

/-- Sockets are those created so far. -/
structure Created (c : Client) : Prop where
  socket : ∀ i, c.socket = some i → i < c.sockets
  underWay : ∀ i ∈ c.underWay, i < c.sockets

/-- The state keeps what a delegate promised. -/
def Client.Honours (c : Client) : ClientAction → Prop
  | .onClosed socket _ _ => socket < c.sockets ∧ c.socket ≠ some socket ∧ socket ∉ c.underWay
  | .onConnected socket => socket ≤ c.sockets ∧ (∀ i, c.socket = some i → ¬i < socket) ∧
      ∀ i ∈ c.underWay, ¬i < socket
  | _ => True

section Runs

variable {parse : String → ServerMessage} {c c' : Client} {event : ClientEvent}
  {o : List ClientAction}

theorem Flows.created (hF : Flows c event o c') (hI : Created c) : Created c' := by
  have hunder : ∀ i ∈ c'.underWay, i < c.sockets := by
    intro i hi
    rcases hF.underWay i hi with hi | hi
    · exact hI.underWay i hi
    · exact hI.socket i hi
  rcases hF.socket with ⟨hsockets, hsocket⟩ | ⟨hsockets, hsocket⟩
  · rw [← hsockets] at hunder
    exact ⟨fun i hi => hsockets ▸ hI.socket i (hsocket i hi), hunder⟩
  · refine ⟨fun i hi => ?_, fun i hi => ?_⟩
    · rw [hsocket, Option.some.injEq] at hi
      omega
    · have := hunder i hi
      omega

/-- A promise is kept by the step, and by what it shows. -/
theorem Flows.honours (hF : Flows c event o c') {x : ClientAction} (hx : c.Honours x) :
    c'.Honours x ∧ ∀ y ∈ o, x.Precludes y := by
  cases x with
  | onClosed socket code reason =>
    obtain ⟨hlt, hne, hnot⟩ := hx
    refine ⟨⟨?_, ?_, fun hmem => ?_⟩, fun y hy => ?_⟩
    · rcases hF.socket with ⟨hsockets, _⟩ | ⟨hsockets, _⟩ <;> omega
    · rcases hF.socket with ⟨_, hsocket⟩ | ⟨_, hsocket⟩
      · exact fun h => hne (hsocket socket h)
      · intro h
        rw [hsocket, Option.some.injEq] at h
        omega
    · exact (hF.underWay socket hmem).elim hnot hne
    · cases y with
      | onMessage m =>
        rintro rfl
        exact hnot (hF.message m hy)
      | accepted | parsed | helloSent | onConnected | onConnectionError | onClosed => trivial
  | onConnected socket =>
    obtain ⟨hle, hnow, hall⟩ := hx
    refine ⟨⟨?_, fun i hi => ?_, fun i hi => ?_⟩, fun y hy => ?_⟩
    · rcases hF.socket with ⟨hsockets, _⟩ | ⟨hsockets, _⟩ <;> omega
    · rcases hF.socket with ⟨_, hsocket⟩ | ⟨_, hsocket⟩
      · exact hnow i (hsocket i hi)
      · rw [hsocket, Option.some.injEq] at hi
        omega
    · exact (hF.underWay i hi).elim (hall i) (hnow i)
    · cases y with
      | onMessage m => exact hall m.socket (hF.message m hy)
      | accepted | parsed | helloSent | onConnected | onConnectionError | onClosed => trivial
  | accepted | parsed | helloSent | onConnectionError | onMessage =>
    exact ⟨trivial, fun y _ => trivial⟩

/-- **A step that finds the connection settled** shows things in order, and promises what it
can keep. -/
theorem Flows.promises (hF : Flows c event o c') (hI : Created c) (hsettled : c.Settled event) :
    o.Pairwise ClientAction.Precludes ∧ ∀ x ∈ o, c'.Honours x := by
  refine ⟨hF.inTime, fun x hx => ?_⟩
  cases x with
  | onClosed socket code reason =>
    obtain ⟨rfl, hsocket, hnone, hunder, _⟩ := hF.closed socket code reason hx
    have hlt := hI.socket socket hsocket
    refine ⟨?_, by simp [hnone], hunder ▸ hsettled hsocket⟩
    rcases hF.socket with ⟨hsockets, _⟩ | ⟨hsockets, _⟩ <;> omega
  | onConnected socket =>
    obtain ⟨rfl, hsocket, rfl, _⟩ := hF.connected socket hx
    refine ⟨(hI.socket socket hsocket).le, fun i hi => ?_, hsettled hsocket⟩
    rw [hsocket, Option.some.injEq] at hi
    omega
  | accepted | parsed | helloSent | onConnectionError | onMessage => trivial

/-- **Nothing is late** in a run whose closes and connects find their connection settled. -/
theorem run_inTime {events : List ClientEvent} {os : List ClientAction}
    (hsettled : Along (stepClient parse) Client.Settled .start events)
    (h : exec (stepClient parse) .start events = some (c, os)) :
    os.Pairwise ClientAction.Precludes := by
  rw [← exec_guarded hsettled] at h
  refine exec_pairwise (I := Created) (G := fun x c => c.Honours x) ?_ ?_ ?_ ?_ h
  · intro s a s' o hI hstep
    exact (stepClient_flows (guarded_some.mp hstep).2).created hI
  · intro x s a s' o _ hx hstep
    exact (stepClient_flows (guarded_some.mp hstep).2).honours hx
  · intro s a s' o hI hstep
    obtain ⟨ha, hstep⟩ := guarded_some.mp hstep
    exact (stepClient_flows hstep).promises hI ha
  · exact ⟨by simp [Client.start], by simp [Client.start, Client.underWay]⟩

/-! ### Nothing missing -/

/-- When nothing of a connection is under way, all its frames have been delivered. -/
theorem Piped.allDelivered {past : List ClientAction} {socket : ℕ} (hI : Piped parse past c)
    (hsocket : socket ∉ c.underWay) : AllDelivered parse past socket := by
  have hparsed : ∀ m ∈ c.parsedInbound, m.socket ≠ socket := fun m hm heq =>
    hsocket (List.mem_append_left _ (List.mem_map.mpr ⟨m, hm, heq⟩))
  have hheld : ∀ i ∈ c.workers.flatMap ParseWorker.sockets, i ≠ socket := fun i hi heq =>
    hsocket (List.mem_append_right _ (List.mem_append_left _ (heq ▸ hi)))
  have hraw : ∀ f ∈ c.rawInbound, f.socket ≠ socket := fun f hf heq =>
    hsocket (List.mem_append_right _ (List.mem_append_right _ (List.mem_map.mpr ⟨f, hf, heq⟩)))
  have hunparsed : ∀ f ∈ c.workers.flatMap ParseWorker.unparsed, f.socket ≠ socket := by
    intro f hf
    obtain ⟨w, hw, hfw⟩ := List.mem_flatMap.mp hf
    refine hheld _ (List.mem_flatMap.mpr ⟨w, hw, List.mem_append_left _ ?_⟩)
    exact List.mem_map_of_mem hfw
  have hunqueued : ∀ m ∈ c.workers.flatMap ParseWorker.unqueued, m.socket ≠ socket := by
    intro m hm
    obtain ⟨w, hw, hmw⟩ := List.mem_flatMap.mp hm
    refine hheld _ (List.mem_flatMap.mpr ⟨w, hw, List.mem_append_right _ ?_⟩)
    exact List.mem_map_of_mem hmw
  -- what is neither broadcast nor of another connection is nothing
  have hrest : ∀ l : List Inbound, (∀ m ∈ l, m.socket ≠ socket) →
      l.filter (·.socket = socket) = [] := by
    intro l hl
    rw [List.filter_eq_nil_iff]
    simpa using hl
  rw [AllDelivered, hI.accepted, List.map_append, hI.parsed, List.append_assoc, List.filter_append,
    hrest (c.parsedInbound ++ _ ++ _), List.append_nil]
  intro m hm
  simp only [List.mem_append, List.mem_map] at hm
  rcases hm with (hm | hm) | ⟨f, hf | hf, rfl⟩
  · exact hparsed m hm
  · exact hunqueued m hm
  · exact hunparsed f hf
  · exact hraw f hf

theorem run_delivered {events : List ClientEvent} {os : List ClientAction}
    (hsettled : Along (stepClient parse) Client.Settled .start events)
    (h : exec (stepClient parse) .start events = some (c, os)) :
    ∀ pre socket code reason post, os = pre ++ .onClosed socket code reason :: post →
      AllDelivered parse pre socket := by
  rw [← exec_guarded hsettled] at h
  have hrule := exec_each (J := Piped parse) (Q := fun pre x => ∀ socket code reason,
    x = .onClosed socket code reason → AllDelivered parse pre socket) ?_ (piped_start parse) h
  · intro pre socket code reason post heq
    exact hrule pre _ post heq socket code reason rfl
  intro past s a s' o hI hstep
  obtain ⟨ha, hstep⟩ := guarded_some.mp hstep
  refine ⟨stepClient_piped hI hstep, ?_⟩
  rintro o₁ x o₂ ho socket code reason rfl
  have hmem : ClientAction.onClosed socket code reason ∈ o := by
    rw [ho]
    simp
  obtain ⟨rfl, hsocket, _, _, hone⟩ := (stepClient_flows hstep).closed socket code reason hmem
  rw [hone] at ho
  obtain rfl : o₁ = [] := by
    cases o₁ with
    | nil => rfl
    | cons y ys => simp at ho
  rw [List.append_nil]
  exact hI.allDelivered (ha hsocket)

end Runs

/-! ### Runs -/

/-- **Delegates fire in order of arrival** in every run in which each close of a connection finds
none of its frames under way, and each connect none of an earlier connection. -/
theorem delivery_in_order {parse : String → ServerMessage} {events : List ClientEvent} {c : Client}
    {os : List ClientAction} (hsettled : Along (stepClient parse) Client.Settled .start events)
    (h : exec (stepClient parse) .start events = some (c, os)) : InArrivalOrder parse os :=
  ⟨run_delivered hsettled h, run_inTime hsettled h⟩

/-- A connection whose one frame is parsed and broadcast before it closes. -/
def orderlyClose : List ClientEvent :=
  [.connect false .empty, .socketConnected 0, .rawMessage 0 "complete", .gameThread, .gameThread,
    .worker 0, .worker 0, .worker 0, .worker 0, .dispatchTick, .gameThread, .gameThread,
    .socketClosed 0 1000 ""]

theorem delivery_in_order_orderlyClose :
    ∃ c os, exec (stepClient .invalid) .start orderlyClose = some (c, os) ∧
      (broadcasts os).length = 1 ∧ InArrivalOrder .invalid os := by
  have hrun : (exec (stepClient .invalid) .start orderlyClose).isSome = true := rfl
  obtain ⟨⟨c, os⟩, h⟩ := Option.isSome_iff_exists.mp hrun
  have hcount : (exec (stepClient .invalid) .start orderlyClose).map (fun p =>
      (broadcasts p.2).length) = some 1 := rfl
  rw [h] at hcount
  have hsettled : Along (stepClient .invalid) Client.Settled .start orderlyClose := by
    decide +kernel
  exact ⟨c, os, h, Option.some.inj hcount, delivery_in_order hsettled h⟩

/-- The server sends its `complete` and closes; the socket reports both before the frame has been
parsed and the ticker has run. -/
def closeOvertakes : List ClientEvent :=
  [.connect false .empty, .socketConnected 0, .rawMessage 0 "complete", .gameThread, .gameThread,
    .socketClosed 0 1000 "", .worker 0, .worker 0, .worker 0, .worker 0, .dispatchTick, .gameThread]

/-- The run broadcasts the message after the `OnClosed` of its connection. -/
theorem complete_after_closed :
    ∃ c os, exec (stepClient fun _ => .complete { generationId := "gen-1" }) .start
        closeOvertakes = some (c, os) ∧
      ¬InArrivalOrder (fun _ => .complete { generationId := "gen-1" }) os := by
  refine ⟨_, _, rfl, fun h => ?_⟩
  have hlate := h.inTime
  simp [ClientAction.Precludes, parseFrame] at hlate

end AetherForge.Plugin
