import AetherForge.Library.GoData

/-!
# The wire messages and the recipe types

The Go structs of `protocol.go` and `llm.go`.  Numbers that Go holds in a `float64` are exact
rationals here and Go's `int` and `int64` are integers; the code that checks their range is
the JSON decoder's, and it does so there.  The server's and the client's messages share one
type, as Go passes both as `any`.
-/

namespace AetherForge

open Go

/-- `Version`. -/
def Version : ℤ := 1

/-! ### Discriminators and error codes -/

def TypeHello : String := "hello"
def TypeGenerate : String := "generate"
def TypePlan : String := "plan"
def TypeChunk : String := "chunk"
def TypeComplete : String := "complete"
def TypeError : String := "error"
def TypeCancel : String := "cancel"

def CodeProtocolVersionMismatch : String := "protocol_version_mismatch"
def CodeExpectedHello : String := "expected_hello"
def CodeLLMInvalidOutput : String := "llm_invalid_output"
def CodeLLMTimeout : String := "llm_timeout"
def CodeInternal : String := "internal"

/-! ### Message types -/

structure Vec2 where
  x : ℚ
  y : ℚ
  deriving DecidableEq, Inhabited

structure Bounds where
  min : Vec2
  max : Vec2
  deriving DecidableEq, Inhabited

structure Transform where
  location : Vec2
  yaw : ℚ
  scale : ℚ
  deriving DecidableEq, Inhabited

structure AssetEntry where
  category : String
  transform : Transform
  groundSnap : Bool
  tags : Slice String
  deriving DecidableEq, Inhabited

structure ManifestEntry where
  footprintRadius : ℚ
  groundSnap : Bool
  instanceable : Bool
  displayName : String
  deriving DecidableEq, Inhabited

/-- `map[string]ManifestEntry`. -/
abbrev Manifest := GoMap ManifestEntry

structure Stats where
  assets : ℤ
  elapsedMs : ℤ
  llmMs : ℤ
  deriving DecidableEq, Inhabited

structure Hello where
  protocolVersion : ℤ
  type : String
  manifest : Manifest
  deriving Inhabited

structure Generate where
  protocolVersion : ℤ
  type : String
  generationId : String
  prompt : String
  seed : Option ℤ
  bounds : Bounds
  deriving DecidableEq, Inhabited

structure Plan where
  protocolVersion : ℤ
  type : String
  generationId : String
  seed : ℤ
  totalAssets : ℤ
  categories : GoMap ℤ
  deriving Inhabited

structure Chunk where
  protocolVersion : ℤ
  type : String
  generationId : String
  assets : Slice AssetEntry
  deriving DecidableEq, Inhabited

structure Complete where
  protocolVersion : ℤ
  type : String
  generationId : String
  stats : Stats
  deriving DecidableEq, Inhabited

structure Error where
  protocolVersion : ℤ
  type : String
  generationId : String
  code : String
  message : String
  recoverable : Bool
  deriving DecidableEq, Inhabited

structure Cancel where
  protocolVersion : ℤ
  type : String
  generationId : String
  deriving DecidableEq, Inhabited

/-- Any wire message. -/
inductive Message
  | hello (m : Hello)
  | generate (m : Generate)
  | plan (m : Plan)
  | chunk (m : Chunk)
  | complete (m : Complete)
  | error (m : Error)
  | cancel (m : Cancel)

/-- `Chunk.ValidateCategories`: `none` when every asset's category is a manifest key, else
the error of the first that is not. -/
def Chunk.validateCategories (c : Chunk) (manifest : Manifest) : Option Err :=
  go 0 c.assets.elems
where
  go (i : ℕ) : List AssetEntry → Option Err
    | [] => none
    | a :: rest =>
      match manifest.get? a.category with
      | some _ => go (i + 1) rest
      | none => some (Err.new ("protocol: chunk asset " ++ toString i ++ ": unknown category " ++
          quote a.category ++ " (not in the manifest advertised at hello)"))

theorem Chunk.validateCategories_go_eq_none_iff (manifest : Manifest) (as : List AssetEntry)
    (i : ℕ) :
    validateCategories.go manifest i as = none ↔
      ∀ a ∈ as, (manifest.get? a.category).isSome := by
  induction as generalizing i with
  | nil => simp [validateCategories.go]
  | cons a as ih =>
    rw [List.forall_mem_cons, validateCategories.go]
    cases h : manifest.get? a.category with
    | some e => simpa using ih (i + 1)
    | none => simp

/-- A chunk passes exactly when all its categories are in the manifest. -/
theorem Chunk.validateCategories_eq_none_iff (c : Chunk) (manifest : Manifest) :
    c.validateCategories manifest = none ↔
      ∀ a ∈ c.assets.elems, (manifest.get? a.category).isSome :=
  validateCategories_go_eq_none_iff manifest c.assets.elems 0

/-! ### Recipes -/

/-- `llm.CategoryRecipe`. -/
structure CategoryRecipe where
  category : String
  count : ℤ
  clustering : ℚ
  tags : Slice String
  deriving DecidableEq, Inhabited

/-- `llm.Recipe`. -/
structure Recipe where
  items : Slice CategoryRecipe
  deriving DecidableEq, Inhabited

/-- `llm.Request`. -/
structure Request where
  prompt : String
  manifest : Manifest
  priorError : String
  deriving Inhabited

/-- What a call of `Client.GenerateRecipe` returns: a recipe pointer, possibly `nil`, or an
error. -/
abbrev Outcome := Except Err (Option Recipe)

/-- `&InvalidOutputError{Detail: detail}` as an `error`. -/
def invalidOutputError (detail : String) : Err :=
  ⟨"llm: output failed schema validation: " ++ detail, false, some detail⟩

@[simp] theorem invalidOutputError_invalid (detail : String) :
    (invalidOutputError detail).invalid = some detail := rfl

end AetherForge
