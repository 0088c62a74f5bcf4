import AetherForge.Backend.Contract

/-!
# What missing fields are decoded to

The messages of a client, with the required fields that `Decode` does not ask for: where one is
missing, the message that is returned has the zero value, as if the client had sent it.

* `generate_missing`, `cancel_missing`, `hello_missing` — the fields of the message;
* `hello_entry_missing` — the fields of a manifest entry.
-/

namespace AetherForge

open Go GoJson

/-! ### The parts of the messages -/

def vec2Readings : List (Reading Vec2) :=
  [.under "x" (·.x) (.itself 0), .under "y" (·.y) (.itself 0)]

def boundsReadings : List (Reading Bounds) :=
  (.itself default :: vec2Readings).map (.under "min" (·.min)) ++
    (.itself default :: vec2Readings).map (.under "max" (·.max))

def manifestEntryReadings : List (Reading ManifestEntry) :=
  [.under "footprint_radius" (·.footprintRadius) (.itself 0),
    .under "ground_snap" (·.groundSnap) (.itself false),
    .under "instanceable" (·.instanceable) (.itself false),
    .under "display_name" (·.displayName) (.itself "")]

def helloReadings : List (Reading Hello) := [.under "manifest" (·.manifest) (.whole .nil)]

def generateReadings : List (Reading Generate) :=
  [.under "generation_id" (·.generationId) (.itself ""), .under "prompt" (·.prompt) (.itself "")] ++
    (.itself default :: boundsReadings).map (.under "bounds" (·.bounds))

def cancelReadings : List (Reading Cancel) :=
  [.under "generation_id" (·.generationId) (.itself "")]

/-- They are read from the places that `Decode` does not ask for. -/
theorem readings_places :
    helloReadings.map (·.place) ++ manifestEntryReadings.map (.field "manifest" <| .entry ·.place) =
        uncheckedFields TypeHello ∧
      generateReadings.map (·.place) = uncheckedFields TypeGenerate ∧
      cancelReadings.map (·.place) = uncheckedFields TypeCancel :=
  ⟨rfl, rfl, rfl⟩

/-! ### They stay zero -/

theorem zeroed_float64 : (Reading.itself 0).Zeroed decodeFloat64 := zeroed_itself (fun _ => rfl) 0

theorem zeroed_string : (Reading.itself "").Zeroed decodeString := zeroed_itself (fun _ => rfl) ""

theorem zeroed_bool : (Reading.itself false).Zeroed decodeBool :=
  zeroed_itself (fun _ => rfl) false

theorem zeroed_vec2 : ∀ r ∈ .itself default :: vec2Readings, r.Zeroed decodeVec2 := by
  have hu : Unambiguous vec2Fields := by decide +kernel
  have hx : Apart "x" Vec2.x vec2Fields := .self (.other (fun _ _ => rfl) .nil)
  have hy : Apart "y" Vec2.y vec2Fields := .other (fun _ _ => rfl) (.self .nil)
  simp only [vec2Readings, List.forall_mem_cons]
  refine ⟨zeroed_itself (fun _ => rfl) _, ?_, ?_, fun _ hr => absurd hr List.not_mem_nil⟩
  · exact zeroed_under zeroed_float64 hu (.head _) (fun _ _ => rfl) hx
  · exact zeroed_under zeroed_float64 hu (.tail _ (.head _)) (fun _ _ => rfl) hy

theorem zeroed_bounds :
    ∀ r ∈ .itself default :: boundsReadings, r.Zeroed (decodeStruct true boundsFields) := by
  have hu : Unambiguous boundsFields := by decide +kernel
  have hmin : Apart "min" Bounds.min boundsFields := .self (.other (fun _ _ => rfl) .nil)
  have hmax : Apart "max" Bounds.max boundsFields := .other (fun _ _ => rfl) (.self .nil)
  rw [boundsReadings, List.forall_mem_cons, List.forall_mem_append, List.forall_mem_map,
    List.forall_mem_map]
  refine ⟨zeroed_itself (fun _ => rfl) _, fun r hr => ?_, fun r hr => ?_⟩
  · exact zeroed_under (zeroed_vec2 r hr) hu (.head _) (fun _ _ => rfl) hmin
  · exact zeroed_under (zeroed_vec2 r hr) hu (.tail _ (.head _)) (fun _ _ => rfl) hmax

theorem zeroed_manifestEntry :
    ∀ r ∈ manifestEntryReadings, r.Zeroed (decodeStruct true manifestEntryFields) := by
  have hu : Unambiguous manifestEntryFields := by decide +kernel
  have hradius : Apart "footprint_radius" ManifestEntry.footprintRadius manifestEntryFields :=
    .self (.other (fun _ _ => rfl) (.other (fun _ _ => rfl) (.other (fun _ _ => rfl) .nil)))
  have hsnap : Apart "ground_snap" ManifestEntry.groundSnap manifestEntryFields :=
    .other (fun _ _ => rfl) (.self (.other (fun _ _ => rfl) (.other (fun _ _ => rfl) .nil)))
  have hinstanceable : Apart "instanceable" ManifestEntry.instanceable manifestEntryFields :=
    .other (fun _ _ => rfl) (.other (fun _ _ => rfl) (.self (.other (fun _ _ => rfl) .nil)))
  have hname : Apart "display_name" ManifestEntry.displayName manifestEntryFields :=
    .other (fun _ _ => rfl) (.other (fun _ _ => rfl) (.other (fun _ _ => rfl) (.self .nil)))
  simp only [manifestEntryReadings, List.forall_mem_cons]
  refine ⟨?_, ?_, ?_, ?_, fun _ hr => absurd hr List.not_mem_nil⟩
  · exact zeroed_under zeroed_float64 hu (.head _) (fun _ _ => rfl) hradius
  · exact zeroed_under zeroed_bool hu (.tail _ (.head _)) (fun _ _ => rfl) hsnap
  · exact zeroed_under zeroed_bool hu (.tail _ (.tail _ (.head _))) (fun _ _ => rfl) hinstanceable
  · exact zeroed_under zeroed_string hu (.tail _ (.tail _ (.tail _ (.head _)))) (fun _ _ => rfl)
      hname

theorem apart_manifest : Apart "manifest" Hello.manifest helloFields :=
  .other (fun _ _ => rfl) (.other (fun _ _ => rfl) (.self .nil))

theorem zeroed_hello : ∀ r ∈ helloReadings, r.Zeroed (decodeStruct true helloFields) := by
  refine List.forall_mem_singleton.mpr ?_
  exact zeroed_under (zeroed_whole fun _ => rfl) heads_hello.unambiguous
    (.tail _ (.tail _ (.head _))) (fun _ _ => rfl) apart_manifest

theorem zeroed_generate :
    ∀ r ∈ generateReadings, r.Zeroed (decodeStruct true generateFields) := by
  have hid : Apart "generation_id" Generate.generationId generateFields :=
    .other (fun _ _ => rfl) (.other (fun _ _ => rfl) (.self (.other (fun _ _ => rfl)
      (.other (fun _ _ => rfl) (.other (fun _ _ => rfl) .nil)))))
  have hprompt : Apart "prompt" Generate.prompt generateFields :=
    .other (fun _ _ => rfl) (.other (fun _ _ => rfl) (.other (fun _ _ => rfl)
      (.self (.other (fun _ _ => rfl) (.other (fun _ _ => rfl) .nil)))))
  have hbounds : Apart "bounds" Generate.bounds generateFields :=
    .other (fun _ _ => rfl) (.other (fun _ _ => rfl) (.other (fun _ _ => rfl)
      (.other (fun _ _ => rfl) (.other (fun _ _ => rfl) (.self .nil)))))
  rw [generateReadings, List.forall_mem_append, List.forall_mem_cons, List.forall_mem_singleton,
    List.forall_mem_map]
  have hu := heads_generate.unambiguous
  refine ⟨⟨?_, ?_⟩, fun r hr => ?_⟩
  · exact zeroed_under zeroed_string hu (.tail _ (.tail _ (.head _))) (fun _ _ => rfl) hid
  · exact zeroed_under zeroed_string hu (.tail _ (.tail _ (.tail _ (.head _)))) (fun _ _ => rfl)
      hprompt
  · exact zeroed_under (zeroed_bounds r hr) hu
      (.tail _ (.tail _ (.tail _ (.tail _ (.tail _ (.head _)))))) (fun _ _ => rfl) hbounds

theorem zeroed_cancel : ∀ r ∈ cancelReadings, r.Zeroed (decodeStruct true cancelFields) := by
  have hid : Apart "generation_id" Cancel.generationId cancelFields :=
    .other (fun _ _ => rfl) (.other (fun _ _ => rfl) (.self .nil))
  refine List.forall_mem_singleton.mpr ?_
  exact zeroed_under zeroed_string heads_cancel.unambiguous (.tail _ (.tail _ (.head _)))
    (fun _ _ => rfl) hid

/-! ### The messages of a client -/

/-- The value that the struct of a message is decoded from. -/
def Message.DecodedFrom (v : Json) : Message → Prop
  | .hello m => decodeStruct true helloFields v default = some m
  | .generate m => decodeStruct true generateFields v default = some m
  | .plan m => decodeStruct true planFields v default = some m
  | .chunk m => decodeStruct true chunkFields v default = some m
  | .complete m => decodeStruct true completeFields v default = some m
  | .error m => decodeStruct true errorFields v default = some m
  | .cancel m => decodeStruct true cancelFields v default = some m

theorem decodedFrom_of {S : Type} {fields : List (StructField S)} [Inhabited S] {v : Json}
    {msg : Message} (ctor : S → Message)
    (hctor : ∀ m, decodeStruct true fields v default = some m → (ctor m).DecodedFrom v)
    (h : (decodeStruct true fields v default).map ctor = some msg) : msg.DecodedFrom v := by
  obtain ⟨m, hm, rfl⟩ := Option.map_eq_some_iff.mp h
  exact hctor m hm

theorem decodeMessage_decodedFrom {type : String} {d : Json → Option Message} {v : Json}
    {msg : Message} (hd : decodeMessage type = some d) (h : d v = some msg) :
    msg.DecodedFrom v := by
  unfold decodeMessage at hd
  split at hd
  · cases hd
    exact decodedFrom_of .hello (fun _ hm => hm) h
  split at hd
  · cases hd
    exact decodedFrom_of .generate (fun _ hm => hm) h
  split at hd
  · cases hd
    exact decodedFrom_of .plan (fun _ hm => hm) h
  split at hd
  · cases hd
    exact decodedFrom_of .chunk (fun _ hm => hm) h
  split at hd
  · cases hd
    exact decodedFrom_of .complete (fun _ hm => hm) h
  split at hd
  · cases hd
    exact decodedFrom_of .error (fun _ hm => hm) h
  split at hd
  · cases hd
    exact decodedFrom_of .cancel (fun _ hm => hm) h
  · cases hd

/-- The message of an accepted frame is decoded from the frame's value. -/
theorem decodeData_decodedFrom {complain : Bytes → String} {explain : Option String → Json → String}
    {data : Bytes} {v : Json} {msg : Message} (hv : parseText data = some v)
    (h : decodeData complain explain data = .ok msg) : msg.DecodedFrom v := by
  rw [decodeData_eq, frameOf, hv] at h
  rcases decode_cases explain (.ok v) with ⟨_, hdecode⟩ | ⟨_, _, _, _, _, _, hdecode⟩ |
    ⟨w, t, d, _, heq, _, hd, hmsg, hdecode⟩ <;> rw [hdecode] at h <;> cases h
  cases heq
  exact decodeMessage_decodedFrom hd hmsg

/-- A decoder leaves zero what is read from places where nothing is given. -/
theorem zeroed_default {S : Type} [Inhabited S] {d : Decoder S} {rs : List (Reading S)}
    (h : ∀ r ∈ rs, r.Zeroed d) (hdefault : ∀ r ∈ rs, r.read default = r.zero) {v : Json} {m : S}
    (hm : d v default = some m) : ∀ r ∈ rs, r.place.Missing [v] → r.read m = r.zero := by
  intro r hr hmissing
  refine h r hr [v] default m ?_ hmissing (hdefault r hr)
  rw [decodeAll, hm]
  rfl

section Missing

variable {complain : Bytes → String} {explain : Option String → Json → String} {data : Bytes}
  {v : Json}

/-- **A generate without a field** has the zero value there. -/
theorem generate_missing (hv : parseText data = some v) {m : Generate}
    (h : decodeData complain explain data = .ok (.generate m)) :
    ∀ r ∈ generateReadings, r.place.Missing [v] → r.read m = r.zero := by
  refine zeroed_default zeroed_generate ?_ (decodeData_decodedFrom hv h)
  simp only [generateReadings, boundsReadings, vec2Readings, List.forall_mem_append,
    List.forall_mem_map, List.forall_mem_cons]
  exact ⟨⟨rfl, rfl, List.forall_mem_nil _⟩, rfl, ⟨rfl, rfl, rfl, List.forall_mem_nil _⟩,
    rfl, rfl, rfl, List.forall_mem_nil _⟩

theorem cancel_missing (hv : parseText data = some v) {m : Cancel}
    (h : decodeData complain explain data = .ok (.cancel m)) :
    ∀ r ∈ cancelReadings, r.place.Missing [v] → r.read m = r.zero :=
  zeroed_default zeroed_cancel (List.forall_mem_singleton.mpr rfl) (decodeData_decodedFrom hv h)

/-- A hello without a manifest has none. -/
theorem hello_missing (hv : parseText data = some v) {m : Hello}
    (h : decodeData complain explain data = .ok (.hello m)) :
    ∀ r ∈ helloReadings, r.place.Missing [v] → r.read m = r.zero :=
  zeroed_default zeroed_hello (List.forall_mem_singleton.mpr rfl) (decodeData_decodedFrom hv h)

/-- **An entry of the manifest without a field** has the zero value there. -/
theorem hello_entry_missing (hv : parseText data = some v) {m : Hello}
    (h : decodeData complain explain data = .ok (.hello m)) {k : String} {w : Json}
    (hkw : (k, w) ∈ entriesGiven (valuesOf "manifest" ([v].flatMap membersOf))) :
    ∃ e, m.manifest.get? k = some e ∧
      ∀ r ∈ manifestEntryReadings, r.place.Missing [w] → r.read e = r.zero := by
  have hm : decodeAll (decodeStruct true helloFields) [v] default = some m := by
    have hfrom : decodeStruct true helloFields v default = some m := decodeData_decodedFrom hv h
    rw [decodeAll, hfrom]
    rfl
  have hmanifest := decodeFields_view heads_hello.unambiguous (.tail _ (.tail _ (.head _)))
    (fun _ _ => rfl) apart_manifest (decodeAll_struct hm)
  obtain ⟨e, he, hget⟩ := decodeAll_map_entry hmanifest hkw
  refine ⟨e, hget, zeroed_default zeroed_manifestEntry ?_ he⟩
  simp only [manifestEntryReadings, List.forall_mem_cons]
  exact ⟨rfl, rfl, rfl, rfl, List.forall_mem_nil _⟩

end Missing

end AetherForge
