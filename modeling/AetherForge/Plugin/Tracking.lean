import AetherForge.Plugin.Conservation
import AetherForge.Plugin.SeedField

/-!
# The panel and the active generation

The module follows one generation and looks at the id of every message; the panel is bound to the
same delegates and looks at none.  While the connection is open, the two agree as long as what
arrives during a generation belongs to it.

* `PanelEvent`, `panelStep` — enabled presses and deliveries, in any order;
* `Tracks` — while a generation is active the panel shows it, and counts its messages alone;
* `panel_tracks` — in every run no step of which is `Disturbed`;
* `late_complete_idles` — a complete of a cancelled generation leaves the next one without Cancel.
-/

namespace AetherForge.Plugin

open Operation StructJson Transition

/-! ### Runs -/

/-- What happens to the panel while the connection is open. -/
inductive PanelEvent
  /-- The user types. -/
  | typed (promptText seedText areaText : String)
  | generate (ans : StartAnswers)
  | newVariation (rand₁ rand₂ : ℤ) (ans : StartAnswers)
  | cancel (connected : Bool) (completed : ℕ → Bool)
  | message (m : ServerMessage) (requests : ℕ → RequestAnswers) (completed : ℕ → Bool)

/-- A plan, a chunk, a complete, or an error that leaves the connection open. -/
def ServerMessage.keepsOpen : ServerMessage → Bool
  | .plan _ => true
  | .chunk _ => true
  | .complete _ => true
  | .error m => m.recoverable
  | .invalid _ => false

/-- A button is pressed when it is enabled, and the client is connected. -/
def PanelEvent.enabled (ed : Editor) : PanelEvent → Bool
  | .typed _ _ _ => true
  | .generate ans => isGenerateEnabled ed.panel && ans.connected
  | .newVariation _ _ ans => isGenerateEnabled ed.panel && ans.connected
  | .cancel connected _ => isCancelEnabled ed.panel && connected
  | .message m _ _ => m.keepsOpen

section Steps

variable (T : TextFunctions)

/-- The operation of an event; a message is handled by the module and by the panel. -/
def PanelEvent.op : PanelEvent → EditorOp
  | .typed promptText seedText areaText =>
    onPanel fun p => { p with promptText, seedText, areaText }
  | .generate ans => onGenerateClicked T ans
  | .newVariation rand₁ rand₂ ans => onNewVariationClicked T rand₁ rand₂ ans
  | .cancel connected completed => onCancelClicked connected completed
  | .message m requests completed =>
    seq (onModule (handleMessage requests completed m)) (onPanel (·.handleMessage T m))

/-- What a history of the panel remembers. -/
inductive Incident
  | started (generationId : String)
  | delivered (m : ServerMessage)

/-- A press starts a generation when there is a prompt. -/
def PanelEvent.incidents (ed : Editor) : PanelEvent → List Incident
  | .generate ans | .newVariation _ _ ans =>
    if T.trimStartAndEnd ed.panel.promptText = "" then [] else [.started ans.generationId]
  | .message m _ _ => [.delivered m]
  | _ => []

def panelStep : Step Editor PanelEvent Incident := fun ed event =>
  if event.enabled ed then some ((event.op T ed).1, event.incidents T ed) else none

end Steps

/-! ### Counting -/

/-- A message carries the id of a generation. -/
def ServerMessage.carries (generationId : String) : ServerMessage → Bool
  | .plan m => sameId m.generationId generationId
  | .chunk m => sameId m.generationId generationId
  | .complete m => sameId m.generationId generationId
  | .error m => sameId m.generationId generationId
  | .invalid _ => false

/-- What the panel shows of its progress. -/
def Panel.counts (p : Panel) : ℤ × ℤ := (p.totalAssets, p.receivedAssets)

/-- The assets that are planned and those that have been received after a message. -/
def count : ℤ × ℤ → ServerMessage → ℤ × ℤ
  | _, .plan m => (m.totalAssets, 0)
  | (total, received), .chunk m => (total, wrap32 (received + m.assets.length))
  | counts, _ => counts

def Incident.after (messages : List ServerMessage) : Incident → List ServerMessage
  | .started _ => []
  | .delivered m => messages ++ [m]

/-- The messages since the last start. -/
def sinceStart (past : List Incident) : List ServerMessage := past.foldl Incident.after []

/-- What the messages of a generation count, those of other generations left out. -/
def countOf (generationId : String) (messages : List ServerMessage) : ℤ × ℤ :=
  (messages.filter (·.carries generationId)).foldl count (0, 0)

/-- While a generation is active the panel is generating, so that Cancel is enabled and Generate is
not, and it has counted the messages of this generation alone. -/
def Tracks (past : List Incident) (ed : Editor) : Prop :=
  ed.forge.activeGenerationId ≠ "" →
    ed.panel.state = .generating ∧ isCancelEnabled ed.panel = true ∧
      isGenerateEnabled ed.panel = false ∧
      ed.panel.counts = countOf ed.forge.activeGenerationId (sinceStart past)

/-! ### Disturbance -/

/-- A message that the panel's counters and its state do not show. -/
def Panel.Unmoved (p : Panel) : ServerMessage → Prop
  | .plan m => m.totalAssets = p.totalAssets ∧ p.receivedAssets = 0
  | .chunk m => m.assets = []
  | _ => False

instance (p : Panel) : (m : ServerMessage) → Decidable (p.Unmoved m)
  | .plan _ => inferInstanceAs (Decidable (_ ∧ _))
  | .chunk m => inferInstanceAs (Decidable (m.assets = []))
  | .complete _ | .error _ | .invalid _ => inferInstanceAs (Decidable False)

/-- A message arrives while a generation is active that it does not belong to, and the panel
shows it. -/
def Disturbed (ed : Editor) : PanelEvent → Prop
  | .message m _ _ =>
    ed.forge.activeGenerationId ≠ "" ∧ m.carries ed.forge.activeGenerationId = false ∧
      ¬ed.panel.Unmoved m
  | _ => False

instance (ed : Editor) : (event : PanelEvent) → Decidable (Disturbed ed event)
  | .message _ _ _ => inferInstanceAs (Decidable (_ ∧ _ ∧ ¬_))
  | .typed _ _ _ | .generate _ | .newVariation _ _ _ | .cancel _ _ =>
    inferInstanceAs (Decidable False)

/-! ### Counting one message more -/

theorem sinceStart_started (past : List Incident) (generationId : String) :
    sinceStart (past ++ [.started generationId]) = [] := by
  rw [sinceStart, List.foldl_append]
  rfl

theorem sinceStart_delivered (past : List Incident) (m : ServerMessage) :
    sinceStart (past ++ [.delivered m]) = sinceStart past ++ [m] := by
  rw [sinceStart, List.foldl_append]
  rfl

theorem countOf_append {generationId : String} (messages : List ServerMessage) (m : ServerMessage) :
    countOf generationId (messages ++ [m]) =
      if m.carries generationId then count (countOf generationId messages) m
      else countOf generationId messages := by
  unfold countOf
  rw [List.filter_append, List.foldl_append]
  cases hcarries : m.carries generationId with
  | true => simp [hcarries]
  | false => simp [hcarries]

/-- The panel counts every message. -/
theorem handleMessage_counts (T : TextFunctions) (p : Panel) (m : ServerMessage) :
    (p.handleMessage T m).counts = count p.counts m := by
  cases m with
  | error m =>
    simp only [Panel.handleMessage, Panel.handleServerError]
    split <;> rfl
  | _ => rfl

theorem count_unmoved {p : Panel} {m : ServerMessage} (h : p.Unmoved m)
    (hrange : InInt32 p.receivedAssets) : count p.counts m = p.counts := by
  cases m with
  | plan m =>
    obtain ⟨htotal, hreceived⟩ := h
    rw [Panel.counts, hreceived, ← htotal]
    rfl
  | chunk m =>
    have hassets : m.assets = [] := h
    simp only [count, Panel.counts, hassets, List.length_nil, Nat.cast_zero, add_zero]
    rw [wrap32_of_inInt32 hrange]
  | complete | error | invalid => cases h

/-- What is counted stays in range. -/
theorem countOf_inInt32 (generationId : String) (messages : List ServerMessage) :
    InInt32 (countOf generationId messages).2 := by
  have hzero : InInt32 0 := by decide
  have hcount : ∀ counts m, InInt32 counts.2 → InInt32 (count counts m).2 := by
    intro counts m h
    cases m with
    | plan m => exact hzero
    | chunk m => exact inInt32_wrap32 _
    | _ => exact h
  unfold countOf
  generalize messages.filter (·.carries generationId) = own
  induction own using List.reverseRecOn with
  | nil => exact hzero
  | append_singleton own m ih =>
    rw [List.foldl_append]
    exact hcount _ m ih

/-! ### One step -/

theorem startGeneration_active {prompt : String} {seed : Option ℤ} {areaMeters : ℚ}
    {ans : StartAnswers} (h : ans.connected = true) (m : EditorModule) :
    (startGeneration prompt seed areaMeters ans m).1.activeGenerationId = ans.generationId := by
  rw [startGeneration, if_pos h]
  rfl

theorem cancelActiveGeneration_active (connected : Bool) (completed : ℕ → Bool)
    (m : EditorModule) :
    (cancelActiveGeneration connected completed m).1.activeGenerationId = "" := by
  unfold cancelActiveGeneration
  split
  · assumption
  · rfl

/-- A complete or an error. -/
def ServerMessage.ends : ServerMessage → Bool
  | .complete _ => true
  | .error _ => true
  | _ => false

/-- A message that ends its generation leaves none active, and others leave the one that is. -/
theorem handleMessage_active (requests : ℕ → RequestAnswers) (completed : ℕ → Bool)
    (msg : ServerMessage) (m : EditorModule) :
    (handleMessage requests completed msg m).1.activeGenerationId =
      if msg.ends && msg.carries m.activeGenerationId then "" else m.activeGenerationId := by
  cases msg with
  | plan plan => rfl
  | chunk chunk =>
    simp only [handleMessage, handleChunk, ServerMessage.ends, Bool.false_and]
    split <;> rfl
  | complete complete =>
    simp only [handleMessage, handleComplete, ServerMessage.ends, ServerMessage.carries,
      Bool.true_and, decide_eq_true_eq]
    split <;> rfl
  | error error =>
    simp only [handleMessage, handleServerError, ServerMessage.ends, ServerMessage.carries,
      Bool.true_and, decide_eq_true_eq]
    by_cases hsame : sameId error.generationId m.activeGenerationId
    · by_cases hactive : m.activeGenerationId = ""
      · rw [if_neg fun h => h.1 hactive, if_pos hsame, hactive]
      · rw [if_pos ⟨hactive, hsame⟩, if_pos hsame]
        rfl
    · rw [if_neg fun h => hsame h.2, if_neg hsame]
  | invalid parseError => rfl

theorem Panel.Unmoved.not_ends {p : Panel} {m : ServerMessage} (h : p.Unmoved m) :
    m.ends = false := by
  cases m with
  | complete | error => cases h
  | _ => rfl

theorem handleMessage_state (T : TextFunctions) {m : ServerMessage} (h : m.ends = false)
    (p : Panel) : (p.handleMessage T m).state = p.state := by
  cases m with
  | complete | error => cases h
  | _ => rfl

section Step

variable {T : TextFunctions} {past : List Incident} {ed : Editor}

/-- A press of a button that starts a generation: nothing happens without a prompt; otherwise the
new generation is active, and the panel begins to show it. -/
theorem panelStartGeneration_cases (seedOverride : Option ℤ) {ans : StartAnswers}
    (hconnected : ans.connected = true) (ed : Editor) :
    (T.trimStartAndEnd ed.panel.promptText = "" ∧
      (panelStartGeneration T seedOverride ans ed).1 = ed) ∨
    (T.trimStartAndEnd ed.panel.promptText ≠ "" ∧
      (panelStartGeneration T seedOverride ans ed).1.forge.activeGenerationId = ans.generationId ∧
      (panelStartGeneration T seedOverride ans ed).1.panel.state = .generating ∧
      (panelStartGeneration T seedOverride ans ed).1.panel.counts = (0, 0)) := by
  have hreturned : ans.returned ≠ "" := by
    rw [StartAnswers.returned, if_pos hconnected]
    exact ans.generationId_ne
  unfold panelStartGeneration
  by_cases hprompt : T.trimStartAndEnd ed.panel.promptText = ""
  · exact .inl ⟨hprompt, by simp only [if_pos hprompt]⟩
  · refine .inr ⟨hprompt, ?_⟩
    simp only [if_neg hprompt, if_neg hreturned]
    exact ⟨startGeneration_active hconnected ed.forge, rfl, rfl⟩

/-- A panel that is generating tracks what is active when it has counted its messages. -/
theorem tracks_of_generating (hstate : ed.panel.state = .generating)
    (hcounts : ed.forge.activeGenerationId ≠ "" → ed.panel.counts =
      countOf ed.forge.activeGenerationId (sinceStart past)) : Tracks past ed := by
  intro hactive
  refine ⟨hstate, ?_, ?_, hcounts hactive⟩
  · exact decide_eq_true hstate
  · rw [isGenerateEnabled, hstate]
    rfl

/-- After a press, the panel tracks the generation that was started, if one was. -/
theorem tracks_started (h : Tracks past ed) (seedOverride : Option ℤ) {ans : StartAnswers}
    (hconnected : ans.connected = true) :
    Tracks (past ++ if T.trimStartAndEnd ed.panel.promptText = "" then []
      else [.started ans.generationId]) (panelStartGeneration T seedOverride ans ed).1 := by
  rcases panelStartGeneration_cases (T := T) seedOverride hconnected ed with
    ⟨hprompt, hed⟩ | ⟨hprompt, -, hstate, hcounts⟩
  · rw [if_pos hprompt, List.append_nil, hed]
    exact h
  · rw [if_neg hprompt]
    refine tracks_of_generating hstate fun _ => ?_
    rw [hcounts, sinceStart_started]
    rfl

/-- A message that leaves its generation active, and does not disturb it, ends nothing, and counts
as a message of this generation does. -/
theorem count_undisturbed (h : Tracks past ed) (hactive : ed.forge.activeGenerationId ≠ "")
    {m : ServerMessage} {requests : ℕ → RequestAnswers} {completed : ℕ → Bool}
    (hdisturbed : ¬Disturbed ed (.message m requests completed))
    (hnot : (m.ends && m.carries ed.forge.activeGenerationId) = false) :
    m.ends = false ∧ count ed.panel.counts m =
      countOf ed.forge.activeGenerationId (sinceStart past ++ [m]) := by
  obtain ⟨-, -, -, hcounts⟩ := h hactive
  rw [countOf_append]
  cases hcarries : m.carries ed.forge.activeGenerationId with
  | true =>
    rw [hcarries, Bool.and_true] at hnot
    exact ⟨hnot, by rw [hcounts, if_pos rfl]⟩
  | false =>
    have hunmoved : ed.panel.Unmoved m := by
      by_contra hmoved
      exact hdisturbed ⟨hactive, hcarries, hmoved⟩
    have hrange : InInt32 ed.panel.receivedAssets := by
      have hcounted := countOf_inInt32 ed.forge.activeGenerationId (sinceStart past)
      rwa [← hcounts] at hcounted
    exact ⟨hunmoved.not_ends, by rw [count_unmoved hunmoved hrange, hcounts,
      if_neg Bool.false_ne_true]⟩

/-- After a message that does not disturb it, the panel tracks what is active. -/
theorem tracks_message (h : Tracks past ed) {m : ServerMessage} {requests : ℕ → RequestAnswers}
    {completed : ℕ → Bool} (hdisturbed : ¬Disturbed ed (.message m requests completed)) :
    Tracks (past ++ [.delivered m]) ((PanelEvent.message m requests completed).op T ed).1 := by
  have hforge : ((PanelEvent.message m requests completed).op T ed).1.forge.activeGenerationId =
      if m.ends && m.carries ed.forge.activeGenerationId then "" else
        ed.forge.activeGenerationId := handleMessage_active requests completed m ed.forge
  intro hactive'
  rw [hforge] at hactive'
  have hnot : (m.ends && m.carries ed.forge.activeGenerationId) = false := by
    by_contra hends
    rw [Bool.not_eq_false] at hends
    exact hactive' (if_pos hends)
  rw [hnot, if_neg Bool.false_ne_true] at hforge hactive'
  obtain ⟨hends, hcount⟩ := count_undisturbed h hactive' hdisturbed hnot
  refine tracks_of_generating ?_ (fun _ => ?_) (by rwa [hforge])
  · exact (handleMessage_state T hends ed.panel).trans (h hactive').1
  · rw [hforge, sinceStart_delivered, ← hcount]
    exact handleMessage_counts T ed.panel m

/-- **One step**: unless it is disturbed, the panel keeps tracking. -/
theorem tracks_step (h : Tracks past ed) {event : PanelEvent} {ed' : Editor} {o : List Incident}
    (hdisturbed : ¬Disturbed ed event) (hstep : panelStep T ed event = some (ed', o)) :
    Tracks (past ++ o) ed' := by
  obtain ⟨henabled, heq⟩ := Option.ite_none_right_eq_some.mp hstep
  cases heq
  cases event with
  | typed promptText seedText areaText =>
    show Tracks (past ++ []) _
    rw [List.append_nil]
    exact h
  | generate ans => exact tracks_started h _ (Bool.and_eq_true_iff.mp henabled).2
  | newVariation rand₁ rand₂ ans =>
    have hvaried : Tracks past (onPanel (fun p =>
        { p with seedText := T.asNumber (rand₁ * 32768 + rand₂) }) ed).1 := h
    exact tracks_started hvaried _ (Bool.and_eq_true_iff.mp henabled).2
  | cancel connected completed =>
    intro hactive
    exact absurd (cancelActiveGeneration_active connected completed ed.forge) hactive
  | message m requests completed => exact tracks_message h hdisturbed

end Step

/-! ### Runs -/

/-- **The panel tracks the active generation**: from a state without one, in every run no step of
which is disturbed. -/
theorem panel_tracks (T : TextFunctions) {ed₀ ed : Editor} {events : List PanelEvent}
    {past : List Incident} (hidle : ed₀.forge.activeGenerationId = "")
    (hrun : exec (panelStep T) ed₀ events = some (ed, past))
    (hundisturbed : Along (panelStep T) (fun ed event => ¬Disturbed ed event) ed₀ events) :
    Tracks past ed := by
  have hstart : Tracks [] ed₀ := fun hactive => absurd hidle hactive
  rw [← exec_guarded hundisturbed] at hrun
  have htracks : Tracks ([] ++ past) ed := by
    refine exec_history ?_ hstart hrun
    intro before m event m' o h hstep
    obtain ⟨hquiet, hstep⟩ := guarded_some.mp hstep
    exact tracks_step h hquiet hstep
  exact htracks

/-! ### Late messages -/

def startWith (guid : String) : StartAnswers := ⟨true, true, guid, ⟨none, none⟩, fun _ => true⟩

def arrives (m : ServerMessage) : PanelEvent := .message m (fun _ => loadLater) fun _ => true

def oneTree (generationId : String) : ServerMessage :=
  .chunk { generationId, assets := [{ AssetEntry.default with category := "tree" }] }

/-- A generation is cancelled, and what was on its way arrives before the next one starts. -/
def cancelledRun : List PanelEvent :=
  [.generate (startWith "0000AAAA1111"),
    arrives (.plan { generationId := "gen-0000aaaa", totalAssets := 5 }),
    arrives (oneTree "gen-0000aaaa"), .cancel true fun _ => true, arrives (oneTree "gen-0000aaaa"),
    .typed "a wood" "" "", .newVariation 3 4 (startWith "0000BBBB1111"),
    arrives (.plan { generationId := "gen-0000bbbb", totalAssets := 3 }),
    arrives (oneTree "gen-0000bbbb")]

theorem panel_tracks_cancelled :
    ∃ ed past, exec (panelStep decimalTexts) (gladeEditor 7) cancelledRun = some (ed, past) ∧
      ed.forge.activeGenerationId = "gen-0000bbbb" ∧ ed.panel.counts = (3, 1) ∧
      Tracks past ed := by
  have hrun : (exec (panelStep decimalTexts) (gladeEditor 7) cancelledRun).map (fun p =>
      (p.1.forge.activeGenerationId, p.1.panel.counts)) = some ("gen-0000bbbb", (3, 1)) := by
    decide +kernel
  obtain ⟨⟨ed, past⟩, hexec, hstate⟩ := Option.map_eq_some_iff.mp hrun
  obtain ⟨hactive, hcounts⟩ := Prod.mk.inj hstate
  exact ⟨ed, past, hexec, hactive, hcounts,
    panel_tracks decimalTexts rfl hexec (by decide +kernel)⟩

/-- The complete of a cancelled generation arrives after the next one has started. -/
def lateRun : List PanelEvent :=
  [.generate (startWith "0000AAAA1111"), .cancel true fun _ => true,
    .generate (startWith "0000BBBB1111"), arrives (.complete { generationId := "gen-0000aaaa" })]

/-- **A late complete**: the second generation is active, and its panel is idle. -/
theorem late_complete_idles :
    ∃ ed past, exec (panelStep decimalTexts) (gladeEditor 7) lateRun = some (ed, past) ∧
      ed.forge.activeGenerationId = "gen-0000bbbb" ∧ ed.panel.state = .connectedIdle ∧
      ¬Tracks past ed := by
  have hrun : (exec (panelStep decimalTexts) (gladeEditor 7) lateRun).map (fun p =>
      (p.1.forge.activeGenerationId, p.1.panel.state)) = some ("gen-0000bbbb", .connectedIdle) := by
    decide +kernel
  obtain ⟨⟨ed, past⟩, hexec, hends⟩ := Option.map_eq_some_iff.mp hrun
  obtain ⟨hactive, hstate⟩ := Prod.mk.inj hends
  refine ⟨ed, past, hexec, hactive, hstate, fun htracks => ?_⟩
  have hgenerating := (htracks (by rw [hactive]; decide)).1
  rw [hstate] at hgenerating
  cases hgenerating

end AetherForge.Plugin
