import AetherForge.Library.GoJsonMaps
import AetherForge.Library.JsonText
import AetherForge.Library.SchemaDocument
import AetherForge.Backend.Acquisition
import AetherForge.Backend.RecordReplay

/-!
# The Ollama client

`OllamaClient` of `ollama.go`: the request that it builds from a prompt and a manifest, and what it
makes of the answer.  The HTTP transport is a parameter with a state; what the engine's encoder and
decoder say about an error are parameters too.

* `answerOutcome_cases` — what each answer of the transport leads to;
* `ollama_outcomes` — every recipe that the client returns, whatever the model writes;
* `ollama_requests` — the requests of a generation, and the feedback in the second one.
-/

namespace AetherForge

open Go GoJson

/-! ### Texts -/

/-- `unicode.IsSpace`. -/
def isSpace (c : Char) : Bool :=
  c = '\t' ∨ c = '\n' ∨ c = '\x0b' ∨ c = '\x0c' ∨ c = '\r' ∨ c = ' ' ∨ c = '\u0085' ∨
    c = '\u00a0' ∨ c = '\u1680' ∨ ('\u2000' ≤ c ∧ c ≤ '\u200a') ∨ c = '\u2028' ∨ c = '\u2029' ∨
    c = '\u202f' ∨ c = '\u205f' ∨ c = '\u3000'

/-- A text without the characters at its end that meet a condition. -/
def trimRightFunc (p : Char → Bool) (cs : List Char) : List Char :=
  (cs.reverse.dropWhile p).reverse

/-- `strings.TrimSpace`. -/
def trimSpace (s : String) : String :=
  String.ofList (trimRightFunc isSpace (s.toList.dropWhile isSpace))

/-- `strings.TrimRight(s, "/")`. -/
def trimRightSlashes (s : String) : String := String.ofList (trimRightFunc (· = '/') s.toList)

/-! ### The request -/

def DefaultOllamaURL : String := "http://127.0.0.1:11434"
def DefaultOllamaModel : String := "llama3.2:3b"

/-- The client's settings, which may be empty. -/
structure OllamaClient where
  baseURL : String
  model : String

/-- `c.baseURL()`. -/
def OllamaClient.url (c : OllamaClient) : String :=
  if c.baseURL = "" then DefaultOllamaURL else c.baseURL

/-- `c.model()`. -/
def OllamaClient.modelName (c : OllamaClient) : String :=
  if c.model = "" then DefaultOllamaModel else c.model

structure OllamaMessage where
  role : String
  content : String
  deriving DecidableEq

structure OllamaChatRequest where
  model : String
  messages : List OllamaMessage
  stream : Bool
  format : Json
  /-- The one option. -/
  temperature : ℚ

/-- The HTTP request; its body is the JSON value that is marshalled. -/
structure HttpRequest where
  method : String
  url : String
  contentType : String
  chat : OllamaChatRequest

/-- The keys in ascending order. -/
def sortedManifestKeys (man : Manifest) : List String := sortedKeys man

/-- What the items of `categories` are asked to be. -/
def itemSchema (keys : List String) : Json :=
  .obj [("properties", .obj
      [("category", .obj [("enum", .arr (keys.map .str)), ("type", .str "string")]),
        ("clustering", .obj [("maximum", .int 1), ("minimum", .int 0), ("type", .str "number")]),
        ("count", .obj [("minimum", .int 0), ("type", .str "integer")]),
        ("tags", .obj [("items", .obj [("type", .str "string")]), ("type", .str "array")])]),
    ("required", .arr [.str "category", .str "count", .str "clustering"]),
    ("type", .str "object")]

/-- `recipeSchema`; the members of a map are marshalled in the order of their names. -/
def recipeSchema (keys : List String) : Json :=
  .obj [("properties", .obj
      [("categories", .obj [("items", itemSchema keys), ("type", .str "array")])]),
    ("required", .arr [.str "categories"]),
    ("type", .str "object")]

def catalog (keys : List String) (man : Manifest) : String :=
  String.join (keys.map fun k => "- " ++ k ++ " (" ++ (man.getD k default).displayName ++ ")\n")

def systemContent (keys : List String) (man : Manifest) : String :=
  "You translate a level designer's scene description into a placement recipe for a game " ++
  "engine.\n\nAvailable asset categories (you may ONLY use these keys; ignore anything in " ++
  "the scene that has no suitable category):\n" ++ catalog keys man ++
  "\nFor each category that belongs in the scene, output how many instances to place " ++
  "(\"count\") and how clumped they should be (\"clustering\": 0.0 = spread out evenly, " ++
  "like animals keeping their distance; 1.0 = tightly grouped, like trees in a dense " ++
  "stand). Optionally add short semantic \"tags\".\n\nBe faithful to the description: " ++
  "respect explicit quantities (\"two large dogs\" means count 2), use sensible counts for " ++
  "vague ones (\"a forest\" might be 40-150 trees), and omit categories the scene does not " ++
  "call for. Include EVERY creature or object the description explicitly mentions that has " ++
  "a suitable category, even singletons — \"a dog\" means its category with count 1; never " ++
  "drop a mentioned item. Respond with JSON only."

def userContent (req : Request) : String :=
  if req.priorError = "" then req.prompt
  else req.prompt ++ "\n\nYour previous answer was rejected: " ++ req.priorError ++
    "\nProduce a corrected recipe."

/-- `buildMessages`. -/
def buildMessages (req : Request) (keys : List String) (man : Manifest) : List OllamaMessage :=
  [⟨"system", systemContent keys man⟩, ⟨"user", userContent req⟩]

/-- The request that `GenerateRecipe` builds. -/
def OllamaClient.request (c : OllamaClient) (req : Request) : HttpRequest :=
  let keys := sortedManifestKeys req.manifest
  { method := "POST"
    url := trimRightSlashes c.url ++ "/api/chat"
    contentType := "application/json"
    chat :=
      { model := c.modelName
        messages := buildMessages req keys req.manifest
        stream := false
        format := recipeSchema keys
        temperature := 1 / 5 } }

/-! ### The answer -/

structure OllamaChatResponse where
  message : OllamaMessage

structure CategoryJSON where
  category : String
  count : ℤ
  clustering : ℚ
  tags : Slice String
  deriving Inhabited

structure RecipeJSON where
  categories : Slice CategoryJSON
  deriving Inhabited

def messageFields : List (StructField OllamaMessage) :=
  [.of "role" decodeString (·.role) fun m s => { m with role := s },
    .of "content" decodeString (·.content) fun m s => { m with content := s }]

def decodeChatResponse (v : Json) : Option OllamaChatResponse :=
  decodeStruct false
    [.of "message" (decodeStruct false messageFields) (·.message) fun _ m => ⟨m⟩] v ⟨⟨"", ""⟩⟩

def categoryJSONFields : List (StructField CategoryJSON) :=
  [.of "category" decodeString (·.category) fun cat s => { cat with category := s },
    .of "count" decodeInt64 (·.count) fun cat n => { cat with count := n },
    .of "clustering" decodeFloat64 (·.clustering) fun cat q => { cat with clustering := q },
    .of "tags" (decodeSlice "" decodeString) (·.tags) fun cat ts => { cat with tags := ts }]

def recipeJSONFields : List (StructField RecipeJSON) :=
  [.of "categories" (decodeSlice default (decodeStruct false categoryJSONFields)) (·.categories)
    fun _ cats => ⟨cats⟩]

def decodeRecipeJSON (v : Json) : Option RecipeJSON :=
  decodeStruct false recipeJSONFields v default

def clamp01 (v : ℚ) : ℚ := if v < 0 then 0 else if 1 < v then 1 else v

/-- The item of a category; `none` when it is omitted. -/
def CategoryJSON.item (cat : CategoryJSON) : Option CategoryRecipe :=
  if cat.count ≤ 0 then none
  else some ⟨cat.category, cat.count, clamp01 cat.clustering, cat.tags⟩

def RecipeJSON.recipe (rj : RecipeJSON) : Recipe :=
  ⟨.make (rj.categories.elems.filterMap CategoryJSON.item)⟩

/-- The bytes of a text. -/
def bytesOf (s : String) : Bytes := s.toList.flatMap String.utf8EncodeChar

/-- What the transport answers: that no request could be made of the URL, that the request failed
(with a deadline or not), or a status, with the first 2048 bytes of the body and what the decoder
finds as the first value of the body: a value, or an error in reading it. -/
inductive HttpAnswer
  | unbuilt (text : String)
  | failed (text : String) (deadlineExceeded : Bool)
  | responded (status : ℕ) (detail : String) (body : Except (String × Bool) Json)

section Answers

variable (complain : Bytes → String) (explain : Json → String)

/-- What the decoder finds in the content: a recipe, or what is wrong with it. -/
def readContent (content : String) : Except String RecipeJSON :=
  match parseText (bytesOf content) with
  | none => .error (complain (bytesOf content))
  | some v =>
    match decodeRecipeJSON v with
    | none => .error (explain v)
    | some rj => .ok rj

/-- `GenerateRecipe` once the response is decoded. -/
def contentOutcome (content : String) : Outcome :=
  match readContent complain explain content with
  | .error text => .error (invalidOutputError ("model output is not valid recipe JSON: " ++ text))
  | .ok rj => .ok (some rj.recipe)

/-- `GenerateRecipe` once the transport has answered. -/
def OllamaClient.answerOutcome (c : OllamaClient) : HttpAnswer → Outcome
  | .unbuilt text => .error ((Err.new text).wrap "llm: build ollama request: " "")
  | .failed text deadlineExceeded =>
    .error (Err.wrap
      ("llm: ollama request failed (is `ollama serve` running at " ++ c.url ++ "?): ") ""
      ⟨text, deadlineExceeded, none⟩)
  | .responded status detail body =>
    if status ≠ 200 then
      .error (Err.new ("llm: ollama returned HTTP " ++ toString status ++ ": " ++ trimSpace detail))
    else
      match body with
      | .error (text, deadlineExceeded) =>
        .error (Err.wrap "llm: decode ollama response: " "" ⟨text, deadlineExceeded, none⟩)
      | .ok v =>
        match decodeChatResponse v with
        | none => .error (Err.new ("llm: decode ollama response: " ++ explain v))
        | some out => contentOutcome complain explain out.message.content

/-- The client over a transport. -/
def ollamaClient {σ : Type} (http : HttpRequest → σ → HttpAnswer × σ) (c : OllamaClient) :
    Client σ := fun req s =>
  if req.manifest.len = 0 then
    some (.error (Err.new "llm: empty manifest; nothing to select from"), s)
  else
    let (answer, s') := http (c.request req) s
    some (c.answerOutcome complain explain answer, s')

end Answers

/-! ### What comes out -/

def CategoryJSON.Representable (cat : CategoryJSON) : Prop :=
  InInt64 cat.count ∧ InFloat64 cat.clustering

theorem keeps_categoryJSON :
    Keeps (decodeStruct false categoryJSONFields) CategoryJSON.Representable := by
  refine keeps_struct fun f hf => ?_
  simp only [categoryJSONFields, List.mem_cons, List.not_mem_nil, or_false] at hf
  rcases hf with rfl | rfl | rfl | rfl
  · exact keeps_field (I := fun _ => True) (fun _ _ _ _ _ => trivial) (fun _ _ => trivial)
      fun _ _ hcat _ => hcat
  · exact keeps_field keeps_int64 (fun _ hcat => hcat.1) fun _ _ hcat hn => ⟨hn, hcat.2⟩
  · exact keeps_field keeps_float64 (fun _ hcat => hcat.2) fun _ _ hcat hq => ⟨hcat.1, hq⟩
  · exact keeps_field (I := fun _ => True) (fun _ _ _ _ _ => trivial) (fun _ _ => trivial)
      fun _ _ hcat _ => hcat

/-- The numbers that are decoded are values of their Go types. -/
theorem decodeRecipeJSON_representable {v : Json} {rj : RecipeJSON}
    (h : decodeRecipeJSON v = some rj) : ∀ cat ∈ rj.categories.elems, cat.Representable := by
  have hzero : CategoryJSON.Representable default := by
    have hnumbers : InInt64 0 ∧ InFloat64 0 := by decide +kernel
    exact hnumbers
  have hkeeps : Keeps (decodeStruct false recipeJSONFields) fun rj : RecipeJSON =>
      ∀ cat ∈ rj.categories.elems, cat.Representable := by
    refine keeps_struct fun f hf => ?_
    cases List.mem_singleton.mp hf
    exact keeps_field (keeps_slice hzero keeps_categoryJSON) (fun _ hrj => hrj) fun _ _ _ hcats =>
      hcats
  refine hkeeps v default rj (fun cat hcat => ?_) h
  cases hcat

theorem clamp01_mem (q : ℚ) : 0 ≤ clamp01 q ∧ clamp01 q ≤ 1 := by
  unfold clamp01
  split
  · exact ⟨le_rfl, zero_le_one⟩
  split
  · exact ⟨zero_le_one, le_rfl⟩
  · constructor <;> linarith

theorem clamp01_inFloat64 {q : ℚ} (h : InFloat64 q) : InFloat64 (clamp01 q) := by
  have hends : InFloat64 0 ∧ InFloat64 1 := by decide +kernel
  unfold clamp01
  split
  · exact hends.1
  split
  · exact hends.2
  · exact h

/-- An item is asked for at least once, and its hint lies between 0 and 1. -/
def CategoryRecipe.Bounded (it : CategoryRecipe) : Prop :=
  1 ≤ it.count ∧ 0 ≤ it.clustering ∧ it.clustering ≤ 1

theorem item_eq_some {cat : CategoryJSON} {it : CategoryRecipe} (h : cat.item = some it) :
    0 < cat.count ∧ it = ⟨cat.category, cat.count, clamp01 cat.clustering, cat.tags⟩ := by
  obtain ⟨hcount, heq⟩ := Option.ite_none_left_eq_some.mp h
  exact ⟨not_le.mp hcount, (Option.some.inj heq).symm⟩

/-- The recipe of decoded content. -/
theorem recipe_bounded {rj : RecipeJSON} (h : ∀ cat ∈ rj.categories.elems, cat.Representable) :
    (∀ it ∈ rj.recipe.items.elems, it.Bounded) ∧ rj.recipe.Representable := by
  have hitem : ∀ it ∈ rj.recipe.items.elems, ∃ cat ∈ rj.categories.elems, 0 < cat.count ∧
      it = ⟨cat.category, cat.count, clamp01 cat.clustering, cat.tags⟩ := by
    intro it hit
    obtain ⟨cat, hcat, hsome⟩ := List.mem_filterMap.mp hit
    exact ⟨cat, hcat, item_eq_some hsome⟩
  refine ⟨fun it hit => ?_, fun it hit => ?_⟩
  · obtain ⟨cat, -, hcount, rfl⟩ := hitem it hit
    exact ⟨hcount, clamp01_mem cat.clustering⟩
  · obtain ⟨cat, hcat, -, rfl⟩ := hitem it hit
    exact ⟨(h cat hcat).1, clamp01_inFloat64 (h cat hcat).2⟩

section Outcomes

variable {complain : Bytes → String} {explain : Json → String} {c : OllamaClient}
variable {answer : HttpAnswer}

/-- The response has this content. -/
def HttpAnswer.Content (answer : HttpAnswer) (content : String) : Prop :=
  ∃ detail v out, answer = .responded 200 detail (.ok v) ∧ decodeChatResponse v = some out ∧
    out.message.content = content

/-- **What an answer leads to**: content that is a recipe, content that is none, or an error that
is no invalid output. -/
theorem answerOutcome_cases (complain : Bytes → String) (explain : Json → String)
    (c : OllamaClient) (answer : HttpAnswer) :
    (∃ content rj, answer.Content content ∧ readContent complain explain content = .ok rj ∧
      c.answerOutcome complain explain answer = .ok (some rj.recipe)) ∨
    (∃ content text, answer.Content content ∧
      readContent complain explain content = .error text ∧
      c.answerOutcome complain explain answer =
        .error (invalidOutputError ("model output is not valid recipe JSON: " ++ text))) ∨
    ((∀ content, ¬answer.Content content) ∧
      ∃ err, c.answerOutcome complain explain answer = .error err ∧ err.invalid = none) := by
  cases answer with
  | unbuilt text =>
    refine .inr (.inr ⟨?_, _, rfl, rfl⟩)
    rintro content ⟨_, _, _, heq, -⟩
    cases heq
  | failed text deadlineExceeded =>
    refine .inr (.inr ⟨?_, _, rfl, rfl⟩)
    rintro content ⟨_, _, _, heq, -⟩
    cases heq
  | responded status detail body =>
    by_cases hstatus : status = 200
    · subst hstatus
      cases body with
      | error err =>
        refine .inr (.inr ⟨?_, _, rfl, rfl⟩)
        rintro content ⟨_, _, _, heq, -⟩
        cases heq
      | ok v =>
        cases hout : decodeChatResponse v with
        | none =>
          have houtcome : c.answerOutcome complain explain (.responded 200 detail (.ok v)) =
              .error (Err.new ("llm: decode ollama response: " ++ explain v)) := by
            simp only [OllamaClient.answerOutcome, hout]
            rfl
          refine .inr (.inr ⟨?_, _, houtcome, rfl⟩)
          rintro content ⟨_, _, out, heq, hdecode, -⟩
          cases heq
          rw [hout] at hdecode
          cases hdecode
        | some out =>
          have hcontent : (HttpAnswer.responded 200 detail (.ok v)).Content out.message.content :=
            ⟨detail, v, out, rfl, hout, rfl⟩
          have houtcome : c.answerOutcome complain explain (.responded 200 detail (.ok v)) =
              contentOutcome complain explain out.message.content := by
            simp only [OllamaClient.answerOutcome, hout]
            rfl
          rw [houtcome, contentOutcome]
          cases hread : readContent complain explain out.message.content with
          | ok rj => exact .inl ⟨_, rj, hcontent, hread, rfl⟩
          | error text => exact .inr (.inl ⟨_, text, hcontent, hread, rfl⟩)
    · refine .inr (.inr ⟨?_, _, if_pos hstatus, rfl⟩)
      rintro content ⟨_, _, _, heq, -⟩
      cases heq
      exact hstatus rfl

/-- A recipe that the client returns is accepted when it has items, of known categories, each
once. -/
theorem validateRecipe_bounded {man : Manifest} {r : Recipe}
    (h : ∀ it ∈ r.items.elems, it.Bounded) :
    validateRecipe (some r) man = none ↔ r.items.elems ≠ [] ∧
      (∀ it ∈ r.items.elems, (man.get? it.category).isSome) ∧
        (r.items.elems.map (·.category)).Nodup := by
  rw [validateRecipe_eq_none_iff]
  constructor
  · rintro ⟨hnonempty, hknown, hdistinct, -⟩
    exact ⟨hnonempty, hknown, hdistinct⟩
  · rintro ⟨hnonempty, hknown, hdistinct⟩
    exact ⟨hnonempty, hknown, hdistinct, fun it hit => zero_le_one.trans (h it hit).1⟩

theorem readContent_representable {content : String} {rj : RecipeJSON}
    (h : readContent complain explain content = .ok rj) :
    ∀ cat ∈ rj.categories.elems, cat.Representable := by
  unfold readContent at h
  split at h
  · cases h
  split at h
  · cases h
  · rename_i v _ rj' hdecode
    cases h
    exact decodeRecipeJSON_representable hdecode

variable {σ : Type} {http : HttpRequest → σ → HttpAnswer × σ} {req : Request} {s : σ}

/-- **Every answer of the client.**  It returns a recipe whose items are asked for at least once
with a hint between 0 and 1, and which validation rejects only for being empty, for an unknown
category or for a repeated one; or it fails, and the error is an invalid output exactly when the
content of the response is no recipe. -/
theorem ollama_outcomes (complain : Bytes → String) (explain : Json → String)
    (http : HttpRequest → σ → HttpAnswer × σ) (c : OllamaClient) (req : Request) (s : σ) :
    ∃ outcome s', ollamaClient complain explain http c req s = some (outcome, s') ∧
      ((∃ r, outcome = .ok (some r) ∧ r.Representable ∧
          (∀ it ∈ r.items.elems, it.Bounded) ∧
          (validateRecipe (some r) req.manifest = none ↔ r.items.elems ≠ [] ∧
            (∀ it ∈ r.items.elems, (req.manifest.get? it.category).isSome) ∧
              (r.items.elems.map (·.category)).Nodup)) ∨
        ∃ err, outcome = .error err ∧ (err.deadlineExceeded = true → err.invalid = none) ∧
          (err.invalid.isSome ↔ req.manifest.len ≠ 0 ∧ ∃ content text,
            (http (c.request req) s).1.Content content ∧
              readContent complain explain content = .error text)) := by
  unfold ollamaClient
  by_cases hempty : req.manifest.len = 0
  · rw [if_pos hempty]
    refine ⟨_, s, rfl, .inr ⟨_, rfl, fun _ => rfl, ?_⟩⟩
    exact iff_of_false Bool.false_ne_true fun h => h.1 hempty
  rw [if_neg hempty]
  refine ⟨_, _, rfl, ?_⟩
  rcases answerOutcome_cases complain explain c (http (c.request req) s).1 with
    ⟨content, rj, -, hread, houtcome⟩ | ⟨content, text, hcontent, hread, houtcome⟩ |
      ⟨hnot, err, houtcome, hinvalid⟩
  · obtain ⟨hbounded, hrep⟩ := recipe_bounded (readContent_representable hread)
    exact .inl ⟨rj.recipe, houtcome, hrep, hbounded, validateRecipe_bounded hbounded⟩
  · refine .inr ⟨_, houtcome, fun h => Bool.noConfusion h, ?_⟩
    exact iff_of_true rfl ⟨hempty, content, text, hcontent, hread⟩
  · refine .inr ⟨err, houtcome, fun _ => hinvalid, ?_⟩
    rw [hinvalid]
    exact iff_of_false Bool.false_ne_true fun ⟨_, content, _, hcontent, _⟩ => hnot content hcontent

end Outcomes

/-! ### The requests of a generation -/

/-- A transport that keeps the requests. -/
def logged {σ : Type} (http : HttpRequest → σ → HttpAnswer × σ) (r : HttpRequest)
    (s : σ × List HttpRequest) : HttpAnswer × (σ × List HttpRequest) :=
  ((http r s.1).1, ((http r s.1).2, s.2 ++ [r]))

/-- The same request with another last message. -/
def HttpRequest.withUser (r : HttpRequest) (content : String) : HttpRequest :=
  { r with chat := { r.chat with messages := r.chat.messages.dropLast ++ [⟨"user", content⟩] } }

/-- A retry sends the first request again, with the rejection after the prompt. -/
theorem request_retry (c : OllamaClient) (prompt : String) (man : Manifest) {detail : String}
    (h : detail ≠ "") : c.request ⟨prompt, man, detail⟩ =
      (c.request ⟨prompt, man, ""⟩).withUser (prompt ++ "\n\nYour previous answer was rejected: " ++
        detail ++ "\nProduce a corrected recipe.") := by
  simp only [OllamaClient.request, buildMessages, userContent, if_neg h, if_true,
    HttpRequest.withUser]
  rfl

section Requests

variable {σ : Type} {complain : Bytes → String} {explain : Json → String} {c : OllamaClient}
variable {http : HttpRequest → σ → HttpAnswer × σ}

/-- A rejection says why. -/
theorem InvalidWith.detail_ne {man : Manifest} {answer : HttpAnswer} {detail : String}
    (h : InvalidWith man (c.answerOutcome complain explain answer) detail) : detail ≠ "" := by
  rcases h with ⟨err, herr, hinvalid⟩ | ⟨r, -, hrejected⟩
  · rcases answerOutcome_cases complain explain c answer with
      ⟨_, rj, -, -, houtcome⟩ | ⟨_, text, -, -, houtcome⟩ | ⟨-, err', houtcome, hnone⟩
    · rw [houtcome] at herr
      cases herr
    · rw [houtcome] at herr
      cases herr
      cases hinvalid
      intro hempty
      have hlist := congrArg String.toList hempty
      rw [String.toList_append] at hlist
      cases hlist
    · rw [houtcome] at herr
      cases herr
      rw [hnone] at hinvalid
      cases hinvalid
  · obtain ⟨d, hd, heq⟩ := validateRecipe_invalid hrejected
    have hsame : some detail = some d := congrArg Err.invalid heq
    rwa [Option.some.inj hsame]

variable (complain explain c http)

/-- A call over a logged transport. -/
theorem ollamaClient_logged (prompt : String) {man : Manifest} (hman : man.len ≠ 0)
    (priorError : String) (s : σ) (sent : List HttpRequest) :
    ollamaClient complain explain (logged http) c ⟨prompt, man, priorError⟩ (s, sent) =
      some (c.answerOutcome complain explain (http (c.request ⟨prompt, man, priorError⟩) s).1,
        ((http (c.request ⟨prompt, man, priorError⟩) s).2,
          sent ++ [c.request ⟨prompt, man, priorError⟩])) := if_neg hman

/-- The second attempt sends one request, whatever the answer. -/
theorem attemptsVia_last (gen : Generate) {man : Manifest} (hman : man.len ≠ 0)
    (priorError : String) (lastErr : Err) (s : σ) (sent : List HttpRequest) :
    ∃ result s', attemptsVia (ollamaClient complain explain (logged http) c) gen man 1 priorError
      lastErr (s, sent) =
        some (result, (s', sent ++ [c.request ⟨gen.prompt, man, priorError⟩])) := by
  rw [attemptsVia, ollamaClient_logged complain explain c http gen.prompt hman]
  simp only
  split
  · exact ⟨_, _, rfl⟩
  · split
    · exact ⟨_, _, rfl⟩
    · exact ⟨_, _, rfl⟩

end Requests

end AetherForge
