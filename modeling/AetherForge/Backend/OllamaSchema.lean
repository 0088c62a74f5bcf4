import AetherForge.Library.JsonPrinting
import AetherForge.Library.JsonSchema
import AetherForge.Backend.Ollama

/-!
# What the schema promises

`recipeSchema` constrains what the model writes: the categories are the advertised ones.  It allows
other members beside those that it names, and the decoder takes names without regard to their case;
and it takes an integer only by its spelling.

* `admits_recipeSchema` — the values that the schema admits, member by member;
* `capital_category` — a member that the schema does not look at replaces the category;
* `admitted_decodes_iff` — the values that are decoded;
* `schema_output` — what the client makes of them, and when validation accepts it.
-/

namespace AetherForge

open Go GoJson

/-! ### Admitted values -/

/-- The members of an item that the schema admits. -/
structure ItemMembers (keys : List String) (members : List (String × Json)) : Prop where
  category : ∀ w, ("category", w) ∈ members → ∃ k ∈ keys, w = .str k
  count : ∀ w, ("count", w) ∈ members → ∃ n : ℤ, numberOf w = some (n : ℚ) ∧ 0 ≤ n
  clustering : ∀ w, ("clustering", w) ∈ members → ∃ q, numberOf w = some q ∧ 0 ≤ q ∧ q ≤ 1
  tags : ∀ w, ("tags", w) ∈ members → ∃ ws, w = .arr ws ∧ ∀ x ∈ ws, ∃ s, x = .str s
  hasCategory : ∃ w, ("category", w) ∈ members

section Admitted

variable {keys : List String} {v : Json}

theorem admits_itemSchema (h : Admits (itemSchema keys) v) :
    ∃ members, v = .obj members ∧ ItemMembers keys members := by
  obtain ⟨members, rfl, hprops, hrequired⟩ := h.object rfl rfl rfl
  refine ⟨members, rfl, ?_⟩
  constructor
  · intro w hw
    exact (hprops "category" _ w List.mem_cons_self hw).choice rfl
  · intro w hw
    have hcount := hprops "count" _ w (.tail _ (.tail _ List.mem_cons_self)) hw
    obtain ⟨n, hn, hlo⟩ := hcount.integer rfl rfl rfl
    exact ⟨n, hn, by exact_mod_cast hlo⟩
  · intro w hw
    have hclustering := hprops "clustering" _ w (.tail _ List.mem_cons_self) hw
    obtain ⟨q, hq, hlo, hhi⟩ := hclustering.number rfl rfl rfl rfl rfl
    exact ⟨q, hq, by exact_mod_cast hlo, by exact_mod_cast hhi⟩
  · intro w hw
    have htags := hprops "tags" _ w (.tail _ (.tail _ (.tail _ List.mem_cons_self))) hw
    obtain ⟨ws, rfl, hws⟩ := htags.array rfl rfl
    exact ⟨ws, rfl, fun x hx => (hws x hx).string rfl⟩
  · exact hrequired "category" List.mem_cons_self

/-- **The values that the schema admits.** -/
theorem admits_recipeSchema (h : Admits (recipeSchema keys) v) :
    ∃ members, v = .obj members ∧ (∃ w, ("categories", w) ∈ members) ∧
      ∀ w, ("categories", w) ∈ members →
        ∃ items, w = .arr items ∧ ∀ item ∈ items, ∃ ms, item = .obj ms ∧ ItemMembers keys ms := by
  obtain ⟨members, rfl, hprops, hrequired⟩ := h.object rfl rfl rfl
  refine ⟨members, rfl, hrequired "categories" List.mem_cons_self, fun w hw => ?_⟩
  obtain ⟨items, rfl, hitems⟩ := (hprops "categories" _ w List.mem_cons_self hw).array rfl rfl
  exact ⟨items, rfl, fun item hitem => admits_itemSchema (hitems item hitem)⟩

end Admitted

/-! ### Names -/

/-- A name that is taken for one of these is this one. -/
def PlainNames (names : List String) (members : List (String × Json)) : Prop :=
  ∀ m ∈ members, ∀ name ∈ names, foldName m.1 = foldName name → m.1 = name

instance (names : List String) (members : List (String × Json)) :
    Decidable (PlainNames names members) :=
  inferInstanceAs (Decidable (∀ m ∈ members, ∀ name ∈ names, foldName m.1 = foldName name →
    m.1 = name))

/-- No member of a recipe, and of its items, has the name of a field in another case. -/
def PlainRecipe (v : Json) : Prop :=
  ∀ members, v = .obj members → PlainNames ["categories"] members ∧
    ∀ items, ("categories", .arr items) ∈ members → ∀ ms, .obj ms ∈ items →
      PlainNames ["category", "count", "clustering", "tags"] ms

/-- What a model writes for a shrub, with more members. -/
def shrubItem (more : List (String × Json)) : List (String × Json) :=
  [("category", .str "shrub"), ("count", .int 2), ("clustering", .int 1)] ++ more

def shrubValue (more : List (String × Json)) : Json :=
  .obj [("categories", .arr [.obj (shrubItem more)])]

/-- Without plain names, a member that the schema does not look at replaces the category. -/
theorem capital_category :
    Admits (recipeSchema ["dog", "shrub"]) (shrubValue [("Category", .str "dragon")]) ∧
      (decodeRecipeJSON (shrubValue [("Category", .str "dragon")])).map
        (fun rj => rj.categories.elems.map (·.category)) = some ["dragon"] := by
  constructor
  · have h : admits 4 (recipeSchema ["dog", "shrub"])
        (shrubValue [("Category", .str "dragon")]) = true := by decide +kernel
    exact admits_sound h
  · decide +kernel

/-- The counts are integer literals of 64 bits. -/
def CountsFit (v : Json) : Prop :=
  ∀ members, v = .obj members → ∀ items, ("categories", .arr items) ∈ members →
    ∀ ms, .obj ms ∈ items → ∀ w, ("count", w) ∈ ms → ∃ n, w = .int n ∧ InInt64 n

/-! ### Decoding -/

def categorySchema : Schema := .openRecord
  [⟨"category", .string, true⟩, ⟨"count", .integer, true⟩, ⟨"clustering", .number, true⟩,
    ⟨"tags", .list .string, false⟩]

theorem judges_categoryJSON : Judges (decodeStruct false categoryJSONFields) categorySchema :=
  judges_openStruct (by decide +kernel)
    (.cons (fieldJudges_of judges_string true) (.cons (fieldJudges_of judges_int64 true)
      (.cons (fieldJudges_of judges_float64 true)
        (.cons (fieldJudges_of (judges_slice judges_string) false) .nil))))

theorem judges_recipeJSON : Judges (decodeStruct false recipeJSONFields)
    (.openRecord [⟨"categories", .list categorySchema, true⟩]) :=
  judges_openStruct (by decide +kernel)
    (.cons (fieldJudges_of (judges_slice judges_categoryJSON) true) .nil)

/-- Numbers between 0 and 1 are doubles, or are rounded to some. -/
theorem fits_number {w : Json} {q : ℚ} (hw : numberOf w = some q) (hlo : 0 ≤ q) (hhi : q ≤ 1) :
    Schema.number.Fits w := by
  have hrange : Binary64.InRange q := by
    have hbig : (1 : ℚ) < 2 ^ 1024 - 2 ^ 970 := by decide +kernel
    rw [Binary64.InRange, abs_of_nonneg hlo]
    exact hhi.trans_lt hbig
  refine .inr ⟨q, ?_, hrange⟩
  cases w with
  | int n =>
    cases hw
    exact .inr ⟨n, rfl, rfl⟩
  | dec r =>
    cases hw
    exact .inl rfl
  | null | bool | str | arr | obj => cases hw

section Items

variable {keys : List String} {ms : List (String × Json)}

/-- An admitted item with plain names is decoded exactly when its counts are integer literals. -/
theorem categorySchema_fits_iff (h : ItemMembers keys ms)
    (hplain : PlainNames ["category", "count", "clustering", "tags"] ms) :
    categorySchema.Fits (.obj ms) ↔
      ∀ w, ("count", w) ∈ ms → ∃ n, w = .int n ∧ InInt64 n := by
  constructor
  · rintro (hnull | ⟨_, heq, hfits⟩) w hw
    · cases hnull
    cases heq
    have hcount := hfits ("count", w) hw ⟨"count", .integer, true⟩ (.tail _ List.mem_cons_self) rfl
    rcases hcount with rfl | hint
    · obtain ⟨n, hn, -⟩ := h.count _ hw
      cases hn
    · exact hint
  · intro hcounts
    refine .inr ⟨ms, rfl, ?_⟩
    rintro ⟨k, w⟩ hw f hf hname
    simp only [List.mem_cons, List.not_mem_nil, or_false] at hf
    rcases hf with rfl | rfl | rfl | rfl
    · obtain rfl : k = "category" := hplain _ hw _ (by decide) hname
      obtain ⟨k, -, rfl⟩ := h.category w hw
      exact .inr ⟨k, rfl⟩
    · obtain rfl : k = "count" := hplain _ hw _ (by decide) hname
      exact .inr (hcounts w hw)
    · obtain rfl : k = "clustering" := hplain _ hw _ (by decide) hname
      obtain ⟨q, hq, hlo, hhi⟩ := h.clustering w hw
      exact fits_number hq hlo hhi
    · obtain rfl : k = "tags" := hplain _ hw _ (by decide) hname
      obtain ⟨ws, rfl, hws⟩ := h.tags w hw
      exact .inr ⟨ws, rfl, fun x hx => .inr (hws x hx)⟩

end Items

/-- The values that are given to a name that is plain. -/
theorem mem_valuesOf {names : List String} {members : List (String × Json)}
    (hplain : PlainNames names members) {name : String} (hname : name ∈ names) {w : Json} :
    w ∈ valuesOf name members ↔ (name, w) ∈ members := by
  constructor
  · intro hw
    obtain ⟨⟨k, _⟩, hm, rfl⟩ := List.mem_map.mp hw
    obtain ⟨hmem, hfold⟩ := List.mem_filter.mp hm
    obtain rfl : k = name := hplain _ hmem name hname (of_decide_eq_true hfold)
    exact hmem
  · intro hw
    exact List.mem_map.mpr ⟨_, List.mem_filter.mpr ⟨hw, decide_eq_true rfl⟩, rfl⟩

/-- The category of an item, through the values given to it. -/
theorem category_view {ms : List (String × Json)} {held cat : CategoryJSON}
    (h : decodeFields false categoryJSONFields ms held = some cat) :
    decodeAll decodeString (valuesOf "category" ms) held.category = some cat.category := by
  have hunambiguous : Unambiguous categoryJSONFields := by decide +kernel
  have hmem : .of "category" decodeString (·.category) (fun cat s => { cat with category := s }) ∈
      categoryJSONFields := List.mem_cons_self
  have hapart : Apart "category" CategoryJSON.category categoryJSONFields :=
    .self (.other (fun _ _ => rfl) (.other (fun _ _ => rfl) (.other (fun _ _ => rfl) .nil)))
  exact decodeFields_view hunambiguous hmem (fun _ _ => rfl) hapart h

/-- The categories of a recipe, through the values given to them. -/
theorem categories_view {members : List (String × Json)} {held rj : RecipeJSON}
    (h : decodeFields false recipeJSONFields members held = some rj) :
    decodeAll (decodeSlice default (decodeStruct false categoryJSONFields))
      (valuesOf "categories" members) held.categories = some rj.categories := by
  have hunambiguous : Unambiguous recipeJSONFields := by decide +kernel
  have hmem : .of "categories" (decodeSlice default (decodeStruct false categoryJSONFields))
      (·.categories) (fun _ cats => ⟨cats⟩) ∈ recipeJSONFields := List.mem_cons_self
  exact decodeFields_view hunambiguous hmem (fun _ _ => rfl) (.self .nil) h

section Recipes

variable {keys : List String} {v : Json}

/-- The category that an admitted item with plain names is decoded to is among the choices. -/
theorem category_mem {ms : List (String × Json)} (h : ItemMembers keys ms)
    (hplain : PlainNames ["category", "count", "clustering", "tags"] ms)
    {held cat : CategoryJSON} (hdecode : decodeFields false categoryJSONFields ms held = some cat) :
    cat.category ∈ keys := by
  refine decodeAll_last (fun w hw a b hb => ?_) ?_ (category_view hdecode)
  · obtain ⟨k, hk, rfl⟩ := h.category w ((mem_valuesOf hplain List.mem_cons_self).mp hw)
    cases hb
    exact hk
  · obtain ⟨w, hw⟩ := h.hasCategory
    exact List.ne_nil_of_mem ((mem_valuesOf hplain List.mem_cons_self).mpr hw)

/-- **The admitted values that are decoded** are those whose counts are integer literals. -/
theorem admitted_decodes_iff (h : Admits (recipeSchema keys) v) (hplain : PlainRecipe v) :
    (∃ rj, decodeRecipeJSON v = some rj) ↔ CountsFit v := by
  obtain ⟨members, rfl, -, hcategories⟩ := admits_recipeSchema h
  obtain ⟨hnames, hitems⟩ := hplain members rfl
  refine (judges_recipeJSON (.obj members) default).trans ?_
  constructor
  · rintro (hnull | ⟨_, heq, hfits⟩) _ ⟨⟩ items hmem ms hms
    · cases hnull
    cases heq
    obtain ⟨_, heq, hadmitted⟩ := hcategories _ hmem
    cases heq
    obtain ⟨_, heq, hitem⟩ := hadmitted _ hms
    cases heq
    have hlist := hfits _ hmem ⟨"categories", .list categorySchema, true⟩ List.mem_cons_self rfl
    rcases hlist with hnull | ⟨_, heq, hall⟩
    · cases hnull
    cases heq
    exact (categorySchema_fits_iff hitem (hitems items hmem ms hms)).mp (hall _ hms)
  · intro hcounts
    refine .inr ⟨members, rfl, ?_⟩
    rintro ⟨k, w⟩ hw f hf hname
    cases List.mem_singleton.mp hf
    obtain rfl : k = "categories" := hnames _ hw _ (by decide) hname
    obtain ⟨items, rfl, hadmitted⟩ := hcategories w hw
    refine .inr ⟨items, rfl, fun item hitem => ?_⟩
    obtain ⟨ms, rfl, hms⟩ := hadmitted item hitem
    exact (categorySchema_fits_iff hms (hitems items hw ms hitem)).mpr
      (hcounts members rfl items hw ms hitem)

/-- **The categories** that an admitted value is decoded to are among the choices. -/
theorem admitted_categories (h : Admits (recipeSchema keys) v) (hplain : PlainRecipe v)
    {rj : RecipeJSON} (hdecode : decodeRecipeJSON v = some rj) :
    ∀ cat ∈ rj.categories.elems, cat.category ∈ keys := by
  obtain ⟨members, rfl, ⟨w₀, hw₀⟩, hcategories⟩ := admits_recipeSchema h
  obtain ⟨hnames, hitems⟩ := hplain members rfl
  refine decodeAll_last (I := fun s : Slice CategoryJSON => ∀ cat ∈ s.elems, cat.category ∈ keys)
    (fun w hw held cats hcats => ?_) ?_ (categories_view hdecode)
  · have hw := (mem_valuesOf hnames List.mem_cons_self).mp hw
    obtain ⟨items, rfl, hadmitted⟩ := hcategories w hw
    obtain ⟨as, has, rfl⟩ := Option.map_eq_some_iff.mp hcats
    intro cat hcat
    obtain ⟨item, hitem, b, hb⟩ := exists_of_mem_decodeElems has cat hcat
    obtain ⟨ms, rfl, hms⟩ := hadmitted item hitem
    exact category_mem hms (hitems items hw ms hitem) hb
  · exact List.ne_nil_of_mem ((mem_valuesOf hnames List.mem_cons_self).mpr hw₀)

end Recipes

/-! ### The client -/

/-- What the client makes of the content of a response. -/
theorem answerOutcome_content {complain : Bytes → String} {explain : Json → String}
    {c : OllamaClient} {answer : HttpAnswer} {content : String} (h : answer.Content content) :
    c.answerOutcome complain explain answer = contentOutcome complain explain content := by
  obtain ⟨detail, v, out, rfl, hout, rfl⟩ := h
  simp only [OllamaClient.answerOutcome, hout]
  rfl

/-- **Content that the schema admits.**  When the model writes a value that the schema of the
request admits, without a member whose name is that of a field in another case, the client returns a
recipe exactly when the counts are integer literals of 64 bits; its categories are all advertised,
and validation accepts it unless it is empty or names a category twice. -/
theorem schema_output {σ : Type} (complain : Bytes → String) (explain : Json → String)
    {http : HttpRequest → σ → HttpAnswer × σ} {c : OllamaClient} {req : Request} {s : σ}
    (hman : req.manifest.len ≠ 0) {content : String} {v : Json}
    (hcontent : (http (c.request req) s).1.Content content)
    (hparse : parseText (bytesOf content) = some v)
    (hadmits : Admits (c.request req).chat.format v) (hplain : PlainRecipe v) :
    ∃ outcome s', ollamaClient complain explain http c req s = some (outcome, s') ∧
      ((∃ r, outcome = .ok (some r)) ↔ CountsFit v) ∧
      ∀ r, outcome = .ok (some r) →
        (∀ it ∈ r.items.elems, (req.manifest.get? it.category).isSome) ∧
        (validateRecipe (some r) req.manifest = none ↔
          r.items.elems ≠ [] ∧ (r.items.elems.map (·.category)).Nodup) := by
  have hdecodes := admitted_decodes_iff hadmits hplain
  refine ⟨_, _, if_neg hman, ?_⟩
  rw [answerOutcome_content hcontent, contentOutcome]
  cases hdecode : decodeRecipeJSON v with
  | none =>
    have hread : readContent complain explain content = .error (explain v) := by
      simp only [readContent, hparse, hdecode]
    rw [hread]
    refine ⟨iff_of_false ?_ fun hfit => ?_, fun r hr => ?_⟩
    · rintro ⟨r, hr⟩
      cases hr
    · obtain ⟨rj, hrj⟩ := hdecodes.mpr hfit
      rw [hdecode] at hrj
      cases hrj
    · cases hr
  | some rj =>
    have hread : readContent complain explain content = .ok rj := by
      simp only [readContent, hparse, hdecode]
    rw [hread]
    refine ⟨iff_of_true ⟨_, rfl⟩ (hdecodes.mp ⟨rj, hdecode⟩), fun r hr => ?_⟩
    cases hr
    have hknown : ∀ it ∈ rj.recipe.items.elems, (req.manifest.get? it.category).isSome := by
      intro it hit
      obtain ⟨cat, hcat, hsome⟩ := List.mem_filterMap.mp hit
      obtain ⟨-, rfl⟩ := item_eq_some hsome
      exact mem_sortedKeys_iff.mp (admitted_categories hadmits hplain hdecode cat hcat)
    have hbounded := (recipe_bounded (decodeRecipeJSON_representable hdecode)).1
    refine ⟨hknown, (validateRecipe_bounded hbounded).trans ⟨fun h => ⟨h.1, h.2.2⟩, fun h =>
      ⟨h.1, hknown, h.2⟩⟩⟩

/-! ### A shrub -/

def shrubContent : String :=
  "\x7b\"categories\":[\x7b\"category\":\"shrub\",\"count\":2,\"clustering\":1\x7d]\x7d"

theorem parse_shrubContent : parseText (bytesOf shrubContent) = some (shrubValue []) := by
  have hprintable : Printable (fun _ => []) 3 (shrubValue []) := by
    simp [Printable, shrubValue, shrubItem]
  have hbytes : bytesOf shrubContent = printValue (fun _ => []) (shrubValue []) := by
    decide +kernel
  rw [hbytes]
  exact parseText_printValue (hprintable.mono (by decide))

theorem plain_shrubValue : PlainRecipe (shrubValue []) := by
  intro members heq
  obtain rfl : members = [("categories", .arr [.obj (shrubItem [])])] := by
    cases heq
    rfl
  refine ⟨by decide, fun items hitems ms hms => ?_⟩
  cases hitems with
  | head =>
    cases hms with
    | head => decide
    | tail _ h => cases h
  | tail _ h => cases h

theorem countsFit_shrubValue : CountsFit (shrubValue []) := by
  intro members heq items hitems ms hms w hw
  cases heq
  cases hitems with
  | head =>
    cases hms with
    | head =>
      have hcount : w = .int 2 := by simpa [shrubItem] using hw
      exact ⟨2, hcount, by decide⟩
    | tail _ h => cases h
  | tail _ h => cases h

theorem meadow_sortedKeys : sortedManifestKeys meadowManifest = ["dog", "shrub"] := by
  have hkeys : meadowManifest.keys = ["dog", "shrub"].toFinset := by decide +kernel
  rw [sortedManifestKeys, sortedKeys, hkeys]
  exact (List.toFinset_sort (· ≤ ·) (by decide)).mpr (by decide)

theorem admits_shrubValue (c : OllamaClient) (prompt priorError : String) :
    Admits (c.request ⟨prompt, meadowManifest, priorError⟩).chat.format (shrubValue []) := by
  have h : admits 4 (recipeSchema ["dog", "shrub"]) (shrubValue []) = true := by decide +kernel
  rw [OllamaClient.request]
  simp only [meadow_sortedKeys]
  exact admits_sound h

/-- A transport that answers every request with this content. -/
def writing (content : String) : HttpRequest → Unit → HttpAnswer × Unit := fun _ _ =>
  (.responded 200 "" (.ok (.obj [("message",
    .obj [("role", .str "assistant"), ("content", .str content)])])), ())

theorem writing_content (content : String) (r : HttpRequest) :
    (writing content r ()).1.Content content :=
  ⟨"", _, ⟨⟨"assistant", content⟩⟩, rfl, rfl, rfl⟩

theorem schema_output_shrub :
    meadowManifest.len ≠ 0 ∧ CountsFit (shrubValue []) ∧
      ∃ outcome s', ollamaClient (fun _ => "") (fun _ => "") (writing shrubContent) ⟨"", ""⟩
          ⟨"a shrub", meadowManifest, ""⟩ () = some (outcome, s') ∧
        ((∃ r, outcome = .ok (some r)) ↔ CountsFit (shrubValue [])) ∧
        ∀ r, outcome = .ok (some r) →
          (∀ it ∈ r.items.elems, (meadowManifest.get? it.category).isSome) ∧
          (validateRecipe (some r) meadowManifest = none ↔
            r.items.elems ≠ [] ∧ (r.items.elems.map (·.category)).Nodup) :=
  ⟨by decide, countsFit_shrubValue,
    schema_output (fun _ => "") (fun _ => "")
      (show (⟨"a shrub", meadowManifest, ""⟩ : Request).manifest.len ≠ 0 by decide)
      (writing_content shrubContent _) parse_shrubContent (admits_shrubValue _ _ _)
      plain_shrubValue⟩

end AetherForge
