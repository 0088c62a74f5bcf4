import AetherForge.Backend.Connection
import AetherForge.Plugin.Client
import AetherForge.Plugin.CodecAgreement
import AetherForge.Plugin.Module

/-!
# The handshake

The `hello` that the client sends on a new connection carries what `BuildWireManifest` makes of the
module's manifest.  The server refuses a `hello` without a category, so that a connection becomes
usable exactly when the manifest has an entry; the empty transient manifest has none.

* `stepClient_hello` — every `hello` carries the manifest of a `Connect`;
* `hello_accepted_iff` — the manifests with which a connection becomes usable.
-/

namespace AetherForge.Plugin

open Go GoJson StructJson Transition

/-! ### What the client sends -/

/-- `TryConnect`, as a call of the client. -/
def tryConnect (connected : Bool) (ans : ManifestAnswers) : ClientEvent :=
  .connect connected (buildWireManifest (getOrLoadManifest ans))

/-- The pending manifest of a client with a socket. -/
def HelloReady (P : TMap WireManifestEntry → Prop) (c : Client) : Prop :=
  c.socket.isSome = true → P c.pendingHelloManifest

section Hello

variable {P : TMap WireManifestEntry → Prop} {parse : String → ServerMessage} {c c' : Client}
  {o : List ClientAction}

/-- A step that keeps the pending manifest and opens no socket, and sends no `hello`. -/
theorem HelloReady.quiet (hI : HelloReady P c)
    (hsocket : c'.socket.isSome = true → c.socket.isSome = true)
    (hpending : c'.pendingHelloManifest = c.pendingHelloManifest)
    (ho : ∀ socket manifest, .helloSent socket manifest ∉ o) :
    HelloReady P c' ∧ ∀ socket manifest, .helloSent socket manifest ∈ o → P manifest := by
  refine ⟨fun h => ?_, fun socket manifest hmem => absurd hmem (ho socket manifest)⟩
  rw [hpending]
  exact hI (hsocket h)

theorem handle_hello {event : ClientEvent} (hI : HelloReady P c)
    (hP : ∀ connected manifest, event = .connect connected manifest → P manifest)
    (h : c.handle event = some (c', o)) :
    HelloReady P c' ∧ ∀ socket manifest, .helloSent socket manifest ∈ o → P manifest := by
  cases event with
  | connect connected manifest =>
    simp only [Client.handle] at h
    split at h <;> cases h
    · exact hI.quiet id rfl (by simp)
    · exact ⟨fun _ => hP _ _ rfl, by simp⟩
  | socketConnected socket =>
    simp only [Client.handle, Client.fromSocket, Option.some.injEq] at h
    split at h <;> rename_i hsocket <;> cases h
    · refine ⟨hI, fun socket' manifest hmem => ?_⟩
      simp only [List.mem_cons, ClientAction.helloSent.injEq, reduceCtorEq, List.not_mem_nil,
        or_false] at hmem
      obtain ⟨-, rfl⟩ := hmem
      exact hI (by rw [hsocket]; rfl)
    · exact hI.quiet id rfl (by simp)
  | socketConnectionError socket _ =>
    simp only [Client.handle, Client.fromSocket, Option.some.injEq] at h
    split at h <;> cases h
    · exact hI.quiet (by simp) rfl (by simp)
    · exact hI.quiet id rfl (by simp)
  | socketClosed socket _ _ =>
    simp only [Client.handle, Client.fromSocket, Option.some.injEq] at h
    split at h <;> cases h
    · exact hI.quiet (by simp) rfl (by simp)
    · exact hI.quiet id rfl (by simp)
  | rawMessage socket _ =>
    simp only [Client.handle, Client.fromSocket, Option.some.injEq] at h
    split at h <;> cases h
    · exact hI.quiet id rfl (by simp)
    · exact hI.quiet id rfl (by simp)
  | disconnect =>
    cases h
    exact hI.quiet (by simp) rfl (by simp)
  | dispatchTick =>
    cases h
    exact hI.quiet id rfl (by simp)
  | gameThread => cases h
  | worker => cases h

theorem stepGameThread_hello (hI : HelloReady P c) (h : c.stepGameThread = some (c', o)) :
    HelloReady P c' ∧ ∀ socket manifest, .helloSent socket manifest ∈ o → P manifest := by
  unfold Client.stepGameThread at h
  split at h
  · cases h
  · split at h <;> cases h <;> exact hI.quiet id rfl (by simp)
  · cases h
    exact hI.quiet id rfl (by simp)
  · split at h <;> cases h <;> exact hI.quiet id rfl (by simp)

theorem stepWorker_hello {k : ℕ} {w : ParseWorker} (hI : HelloReady P c)
    (h : c.stepWorker parse k w = some (c', o)) :
    HelloReady P c' ∧ ∀ socket manifest, .helloSent socket manifest ∈ o → P manifest := by
  cases w with
  | dequeue =>
    simp only [Client.stepWorker] at h
    split at h <;> cases h <;> exact hI.quiet id rfl (by simp)
  | acquire =>
    simp only [Client.stepWorker] at h
    split at h <;> cases h <;> exact hI.quiet id rfl (by simp)
  | finished => cases h
  | _ =>
    cases h
    exact hI.quiet id rfl (by simp)

/-- **What a step sends**: every `hello` carries the manifest of a `Connect`. -/
theorem stepClient_hello {event : ClientEvent} (hI : HelloReady P c)
    (hP : ∀ connected manifest, event = .connect connected manifest → P manifest)
    (h : stepClient parse c event = some (c', o)) :
    HelloReady P c' ∧ ∀ socket manifest, .helloSent socket manifest ∈ o → P manifest := by
  cases event with
  | gameThread => exact stepGameThread_hello hI h
  | worker k =>
    obtain ⟨w, -, hw⟩ := Option.bind_eq_some_iff.mp h
    exact stepWorker_hello hI hw
  | _ =>
    simp only [stepClient] at h
    split at h
    · exact handle_hello hI hP h
    · cases h

theorem run_hello {events : List ClientEvent}
    (hP : ∀ connected manifest, .connect connected manifest ∈ events → P manifest)
    (h : exec (stepClient parse) .start events = some (c, o)) :
    ∀ socket manifest, .helloSent socket manifest ∈ o → P manifest := by
  have halong : Along (stepClient parse)
      (fun _ event => ∀ connected manifest, event = .connect connected manifest → P manifest)
      .start events := by
    refine along_of_forall (fun event hevent _ connected manifest heq => ?_) _
    exact hP connected manifest (heq ▸ hevent)
  have hrun := exec_invariant_along (I := HelloReady P)
    (Q := fun a => ∀ socket manifest, a = .helloSent socket manifest → P manifest) ?_
    (by intro h; cases h) halong h
  · exact fun socket manifest hmem => hrun.2 _ hmem socket manifest rfl
  · intro s event s' os hI hevent hstep
    obtain ⟨hI', ho⟩ := stepClient_hello hI hevent hstep
    exact ⟨hI', fun a ha socket manifest heq => ho socket manifest (heq ▸ ha)⟩

end Hello

/-! ### What the server makes of it -/

/-- Entries that a data asset can hold: their keys are not empty, and their radii, which are of type
`float`, are numbers. -/
def ValidEntries (entries : TMap ManifestAssetEntry) : Prop :=
  ∀ p ∈ entries.entries, p.1 ≠ "" ∧ InFloat64 p.2.footprintRadius

/-- The module holds a manifest with an entry, or finds one. -/
def Authored (ans : ManifestAnswers) : Prop :=
  ∃ entries : TMap ManifestAssetEntry, entries.entries ≠ [] ∧
    (ans.held = some entries ∨ ans.held = none ∧ ans.loaded = some entries)

theorem authored_iff (ans : ManifestAnswers) :
    Authored ans ↔ (getOrLoadManifest ans).entries ≠ [] := by
  obtain ⟨held, loaded⟩ := ans
  constructor
  · rintro ⟨entries, hne, rfl | ⟨rfl, rfl⟩⟩
    · exact hne
    · exact hne
  · intro hne
    cases held with
    | some entries => exact ⟨entries, hne, .inl rfl⟩
    | none =>
      cases loaded with
      | some entries => exact ⟨entries, hne, .inr ⟨rfl, rfl⟩⟩
      | none => exact absurd rfl hne

/-- A connection on which the first frame makes the server ready for requests. -/
def Usable (explain : Option String → Json → String) (o : Orchestrator)
    (frame : AetherForge.Frame) : Prop :=
  ∃ store os, stepConnection explain o .start (.receive frame) =
    some (⟨.loop, some (.start store)⟩, os)

theorem usable_iff {explain : Option String → Json → String} {o : Orchestrator}
    {frame : AetherForge.Frame} :
    Usable explain o frame ↔ ∃ store, handshake explain frame = .ok store := by
  rw [Usable]
  cases hhandshake : handshake explain frame with
  | error e =>
    have hstep : stepConnection explain o .start (.receive frame) =
        some (⟨.refuse e, none⟩, [.received frame]) := by
      simp only [stepConnection, stepReceive, Connection.start, hhandshake]
    rw [hstep]
    constructor
    · rintro ⟨_, _, h⟩
      cases h
    · rintro ⟨_, h⟩
      cases h
  | ok store =>
    have hstep : stepConnection explain o .start (.receive frame) =
        some (⟨.loop, some (.start store)⟩, [.received frame]) := by
      simp only [stepConnection, stepReceive, Connection.start, hhandshake]
    rw [hstep]
    exact ⟨fun _ => ⟨store, rfl⟩, fun _ => ⟨store, _, rfl⟩⟩

/-- A `hello` has as many categories as it carries. -/
theorem Carries.len_eq_zero_iff {hello : Hello} {manifest : TMap WireManifestEntry}
    (h : Carries hello manifest) : hello.manifest.len = 0 ↔ manifest.entries = [] := by
  rw [GoMap.len, Finset.card_eq_zero]
  constructor
  · intro hempty
    refine List.eq_nil_iff_forall_not_mem.mpr fun p hp => ?_
    have hget := (h.2.2 p.1 p.2.sent).mpr ⟨p.2, hp, rfl⟩
    have hmem : p.1 ∈ hello.manifest.keys := GoMap.mem_keys_iff.mpr (by rw [hget]; rfl)
    rw [hempty] at hmem
    cases hmem
  · intro hnil
    refine Finset.eq_empty_iff_forall_notMem.mpr fun k hk => ?_
    obtain ⟨e, he⟩ := Option.isSome_iff_exists.mp (GoMap.mem_keys_iff.mp hk)
    obtain ⟨w, hw, -⟩ := (h.2.2 k e).mp he
    rw [hnil] at hw
    cases hw

/-- The handshake on a serialized manifest. -/
theorem handshake_serializeHello (explain : Option String → Json → String) {c : Conversions}
    (hc : c.Lawful) {print : ℚ → Json} (hprint : Prints print)
    {entries : TMap ManifestAssetEntry} (hentries : ValidEntries entries) :
    ∃ hello, Carries hello (buildWireManifest entries) ∧
      handshake explain (.ok (serializeHello c print (buildWireManifest entries))) =
        if hello.manifest.len = 0 then
          .error (connectionError CodeExpectedHello
            "hello.manifest must contain at least one category" false)
        else .ok hello.manifest.copy := by
  have hwire : ∀ p ∈ (buildWireManifest entries).entries,
      p.1 ≠ "" ∧ InFloat64 p.2.footprintRadius := by
    intro p hp
    obtain ⟨p', hp', rfl⟩ := List.mem_map.mp hp
    exact hentries p' hp'
  obtain ⟨hello, hcarries, hdecode, -⟩ :=
    serializeHello_decoded (fun _ => "") explain hc hprint hwire
  refine ⟨hello, hcarries, ?_⟩
  simp only [handshake, hdecode]

/-- **The manifests with which a connection becomes usable.**  Every `hello` that the client sends
in a run carries the manifest of a connection attempt, and is accepted exactly when the module
held or found a manifest with an entry at that attempt. -/
theorem hello_accepted_iff (explain : Option String → Json → String) (o : Orchestrator)
    {c : Conversions} (hc : c.Lawful) {print : ℚ → Json} (hprint : Prints print)
    {parse : String → ServerMessage} {events : List ClientEvent} {client : Client}
    {os : List ClientAction} (hrun : exec (stepClient parse) .start events = some (client, os))
    (hevents : ∀ connected manifest, .connect connected manifest ∈ events →
      ∃ ans, ValidEntries (getOrLoadManifest ans) ∧
        .connect connected manifest = tryConnect connected ans) :
    ∀ socket manifest, .helloSent socket manifest ∈ os →
      ∃ connected ans, tryConnect connected ans ∈ events ∧
        manifest = buildWireManifest (getOrLoadManifest ans) ∧
        (Usable explain o (.ok (serializeHello c print manifest)) ↔ Authored ans) := by
  intro socket manifest hsent
  have hconnect := run_hello (P := fun manifest => ∃ connected ans,
    tryConnect connected ans ∈ events ∧ ValidEntries (getOrLoadManifest ans) ∧
      manifest = buildWireManifest (getOrLoadManifest ans)) ?_ hrun socket manifest hsent
  · obtain ⟨connected, ans, hmem, hvalid, rfl⟩ := hconnect
    refine ⟨connected, ans, hmem, rfl, ?_⟩
    obtain ⟨hello, hcarries, hhandshake⟩ := handshake_serializeHello explain hc hprint hvalid
    have hlen : hello.manifest.len = 0 ↔ (getOrLoadManifest ans).entries = [] := by
      rw [hcarries.len_eq_zero_iff]
      exact List.map_eq_nil_iff
    rw [usable_iff, hhandshake, authored_iff, ne_eq, ← hlen]
    split
    · rename_i hzero
      constructor
      · rintro ⟨_, h⟩
        cases h
      · exact fun h => absurd hzero h
    · rename_i hne
      exact ⟨fun _ => hne, fun _ => ⟨_, rfl⟩⟩
  · intro connected manifest hmem
    obtain ⟨ans, hvalid, heq⟩ := hevents connected manifest hmem
    exact ⟨connected, ans, heq ▸ hmem, hvalid, (ClientEvent.connect.inj heq).2⟩

/-- A data asset with one category. -/
def shrubAsset : TMap ManifestAssetEntry :=
  ⟨[("shrub", ⟨some "/Game/Shrub", 100, true, true, "Shrub"⟩)], by decide +kernel⟩

theorem hello_accepted_iff_shrub :
    Usable (fun _ _ => "") (.new evenDraws)
      (.ok (serializeHello plainEngine.toConversions encodeFloat64
        (buildWireManifest shrubAsset))) := by
  let ans : ManifestAnswers := ⟨none, some shrubAsset⟩
  have hvalid : ValidEntries shrubAsset := by
    intro p hp
    rw [List.mem_singleton.mp hp]
    decide +kernel
  have hrun : exec (stepClient fun _ => .invalid "") .start
      [tryConnect false ans, .socketConnected 0] = some (_, _) := rfl
  have hevents : ∀ connected manifest,
      .connect connected manifest ∈ [tryConnect false ans, .socketConnected 0] →
      ∃ ans, ValidEntries (getOrLoadManifest ans) ∧
        .connect connected manifest = tryConnect connected ans := by
    intro connected manifest hmem
    rcases List.mem_cons.mp hmem with heq | hmem
    · cases heq
      exact ⟨ans, hvalid, rfl⟩
    · cases List.mem_singleton.mp hmem
  obtain ⟨_, ans', -, hsame, hiff⟩ := hello_accepted_iff (fun _ _ => "")
    (.new evenDraws) (plainEngine_lawful halvesFormat).toLawful prints_encodeFloat64 hrun hevents 0
    (buildWireManifest shrubAsset) List.mem_cons_self
  refine hiff.mpr ((authored_iff ans').mpr fun hnil => ?_)
  have hempty : (buildWireManifest (getOrLoadManifest ans')).entries = [] :=
    List.map_eq_nil_iff.mpr hnil
  rw [← hsame] at hempty
  cases hempty

/-- **Without a data asset** the client sends a `hello` that the server refuses. -/
theorem hello_without_asset_refused :
    ∃ client os, exec (stepClient fun _ => .invalid "") .start
        [tryConnect false ⟨none, none⟩, .socketConnected 0] = some (client, os) ∧
      .helloSent 0 (buildWireManifest (getOrLoadManifest ⟨none, none⟩)) ∈ os ∧
      handshake (fun _ _ => "") (.ok (serializeHello plainEngine.toConversions encodeFloat64
        (buildWireManifest (getOrLoadManifest ⟨none, none⟩)))) =
        .error (connectionError CodeExpectedHello
          "hello.manifest must contain at least one category" false) := by
  refine ⟨_, _, rfl, List.mem_cons_self, ?_⟩
  have hvalid : ValidEntries (getOrLoadManifest ⟨none, none⟩) := fun _ hp => nomatch hp
  obtain ⟨hello, hcarries, hhandshake⟩ := handshake_serializeHello (fun _ _ => "")
    (plainEngine_lawful halvesFormat).toLawful prints_encodeFloat64 hvalid
  rw [hhandshake, if_pos (hcarries.len_eq_zero_iff.mpr rfl)]

end AetherForge.Plugin
