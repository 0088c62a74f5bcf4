import AetherForge.Plugin.Module

/-!
# The panel

`SAetherForgePanel`: its state, its three text fields and what it does with them.  The engine's text
functions are parameters; `TextFunctions.Lawful` is what they do with the texts of numbers.  The log
and the widgets are left out.
-/

namespace AetherForge.Plugin

open GoJson Operation StructJson

/-! ### Texts -/

/-- The engine's text functions. -/
structure TextFunctions where
  /-- `FString::TrimStartAndEnd`. -/
  trimStartAndEnd : String → String
  /-- `LexTryParseString` for an `int64` and for a `double`. -/
  lexTryParseInt64 : String → Option ℤ
  lexTryParseDouble : String → Option ℚ
  /-- `FText::AsNumber` without grouping. -/
  asNumber : ℤ → String

/-- A text that is parsed gives an `int64`, and the text of an `int64` is parsed to it. -/
structure TextFunctions.Lawful (T : TextFunctions) : Prop where
  range : ∀ text n, T.lexTryParseInt64 text = some n → InInt64 n
  trim : ∀ n, InInt64 n → T.trimStartAndEnd (T.asNumber n) = T.asNumber n
  nonempty : ∀ n, InInt64 n → T.asNumber n ≠ ""
  parse : ∀ n, InInt64 n → T.lexTryParseInt64 (T.asNumber n) = some n

/-! ### State -/

/-- `EAetherForgePanelState`. -/
inductive PanelState
  | disconnected
  | startingSidecar
  | connectedIdle
  | generating
  | error
  deriving DecidableEq

structure Panel where
  state : PanelState
  errorMessage : String
  totalAssets : ℤ
  receivedAssets : ℤ
  lastLlmMs : ℤ
  /-- The texts of `PromptTextBox`, `SeedTextBox` and `AreaTextBox`. -/
  promptText : String
  seedText : String
  areaText : String

/-- The panel and the module whose methods it calls. -/
structure Editor where
  panel : Panel
  forge : EditorModule

abbrev EditorOp := Op Editor ModuleAction

def onPanel (f : Panel → Panel) : EditorOp := fun ed => ({ ed with panel := f ed.panel }, [])

def onModule (f : ModuleOp) : EditorOp := fun ed =>
  ({ ed with forge := (f ed.forge).1 }, (f ed.forge).2)

def Panel.setState (p : Panel) (state : PanelState) : Panel :=
  { p with
    state := state
    errorMessage := if state = .error then p.errorMessage else "" }

def Panel.enterErrorState (p : Panel) (message : String) : Panel :=
  { p with errorMessage := message, state := .error }

section Fields

variable (T : TextFunctions)

/-- `ParseSeedField`: an empty field, and one that is no number, leaves the seed unset. -/
def parseSeedField (p : Panel) : Option ℤ :=
  if T.trimStartAndEnd p.seedText = "" then none
  else T.lexTryParseInt64 (T.trimStartAndEnd p.seedText)

def DefaultAreaMeters : ℚ := 70

def parseAreaField (p : Panel) : ℚ :=
  if T.trimStartAndEnd p.areaText = "" then DefaultAreaMeters
  else
    match T.lexTryParseDouble (T.trimStartAndEnd p.areaText) with
    | some areaMeters => if 0 < areaMeters then areaMeters else DefaultAreaMeters
    | none => DefaultAreaMeters

/-! ### Buttons -/

/-- The panel's `StartGeneration`. -/
def panelStartGeneration (seedOverride : Option ℤ) (ans : StartAnswers) : EditorOp := fun ed =>
  let prompt := T.trimStartAndEnd ed.panel.promptText
  if prompt = "" then (ed, [])
  else
    seq (onModule (startGeneration prompt seedOverride (parseAreaField T ed.panel) ans))
      (if ans.returned = "" then onPanel (·.enterErrorState "Not connected to the sidecar.")
        else onPanel fun p => { p with totalAssets := 0, receivedAssets := 0 }.setState .generating)
      ed

/-- It shows what the module shows. -/
theorem panelStartGeneration_shows (seedOverride : Option ℤ) (ans : StartAnswers) (ed : Editor) :
    (panelStartGeneration T seedOverride ans ed).2 =
      if T.trimStartAndEnd ed.panel.promptText = "" then []
      else (startGeneration (T.trimStartAndEnd ed.panel.promptText) seedOverride
        (parseAreaField T ed.panel) ans ed.forge).2 := by
  unfold panelStartGeneration
  by_cases hprompt : T.trimStartAndEnd ed.panel.promptText = ""
  · simp only [if_pos hprompt]
  · simp only [if_neg hprompt]
    split <;> exact List.append_nil _

def onGenerateClicked (ans : StartAnswers) : EditorOp := fun ed =>
  panelStartGeneration T (parseSeedField T ed.panel) ans ed

/-- `OnNewVariationClicked`: the seed is put together from two numbers of the engine's generator,
and shown in the seed field. -/
def onNewVariationClicked (rand₁ rand₂ : ℤ) (ans : StartAnswers) : EditorOp :=
  let newSeed := rand₁ * 32768 + rand₂
  seq (onPanel fun p => { p with seedText := T.asNumber newSeed })
    (panelStartGeneration T (some newSeed) ans)

def onCancelClicked (connected : Bool) (completed : ℕ → Bool) : EditorOp :=
  seq (onModule (cancelActiveGeneration connected completed)) (onPanel (·.setState .connectedIdle))

def isGenerateEnabled (p : Panel) : Bool := p.state = .connectedIdle

def isCancelEnabled (p : Panel) : Bool := p.state = .generating

def isReconnectVisible (p : Panel) : Bool := p.state = .error ∨ p.state = .disconnected

/-! ### The connection -/

/-- A new panel, before `Construct` sets its state. -/
def Panel.start : Panel := ⟨.disconnected, "", 0, 0, 0, "", "", ""⟩

/-- The panel's `HandleConnected`. -/
def Panel.handleConnected (p : Panel) : Panel :=
  if p.state ≠ .generating then p.setState .connectedIdle else p

/-- The panel's `HandleClosed`. -/
def Panel.handleClosed (p : Panel) : Panel :=
  if p.state ≠ .error then p.setState .disconnected else p

/-! ### Messages -/

/-- `HandlePlan`: the seed in effect is written into the seed field. -/
def handlePlan (plan : PlanMessage) (p : Panel) : Panel :=
  { p with
    totalAssets := plan.totalAssets
    receivedAssets := 0
    seedText := T.asNumber plan.seed }

/-- The panel's `HandleChunk`; the counter has 32 bits. -/
def Panel.handleChunk (p : Panel) (chunk : ChunkMessage) : Panel :=
  { p with receivedAssets := wrap32 (p.receivedAssets + chunk.assets.length) }

def Panel.handleComplete (p : Panel) (complete : CompleteMessage) : Panel :=
  { p with lastLlmMs := complete.stats.llmMs }.setState .connectedIdle

def Panel.handleServerError (p : Panel) (error : ErrorMessage) : Panel :=
  if error.recoverable then p.setState .connectedIdle else p.enterErrorState error.message

/-- What the delegates of a message's type call in the panel. -/
def Panel.handleMessage (p : Panel) : ServerMessage → Panel
  | .plan m => handlePlan T m p
  | .chunk m => p.handleChunk m
  | .complete m => p.handleComplete m
  | .error m => p.handleServerError m
  | .invalid _ => p

end Fields

end AetherForge.Plugin
