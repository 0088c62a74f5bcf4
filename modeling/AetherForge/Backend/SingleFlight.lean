import AetherForge.Library.Slicing
import AetherForge.Backend.GenerationRuns
import AetherForge.Backend.StreamAgreement

/-!
# Single flight

What `OneLive` means for the messages.  Every output of a run promises that nothing older than
it will be handed to the Sender any more (`Beyond`): an effect of a generation, the return of
`Generate` with the generation it launched, the return of `Shutdown` with the number of
generations so far.  So each generation's messages are one block, the blocks follow the order of
the calls, and a method that has returned has silenced what it retired (`single_flight`).
-/

namespace AetherForge

open Go Interaction Transition Slicing

/-! ### Messages -/

def Action.message? : Action → Option (ℕ × Message)
  | .effect g ev => (handed ev).map fun m => (g, m)
  | _ => none

/-- The messages handed to the Sender, each with its generation. -/
def sent (os : List Action) : List (ℕ × Message) := os.filterMap Action.message?

theorem sent_append (os os' : List Action) : sent (os ++ os') = sent os ++ sent os' :=
  List.filterMap_append

theorem mem_sent_iff {os : List Action} {i : ℕ} {m : Message} :
    (i, m) ∈ sent os ↔ ∃ ev, .effect i ev ∈ os ∧ handed ev = some m := by
  rw [sent, List.mem_filterMap]
  constructor
  · rintro ⟨x, hx, hm⟩
    cases x with
    | effect g ev =>
      obtain ⟨m', hm', heq⟩ := Option.map_eq_some_iff.mp hm
      cases heq
      exact ⟨ev, hx, hm'⟩
    | _ => cases hm
  · rintro ⟨ev, hx, hm⟩
    refine ⟨_, hx, ?_⟩
    simp only [Action.message?, hm, Option.map_some]

/-- The messages of one generation are those of its events. -/
theorem sent_filter_eq (i : ℕ) (os : List Action) :
    ((sent os).filter fun x => x.1 = i).map Prod.snd = sentMessages (eventsOf i os) := by
  induction os with
  | nil => rfl
  | cons x os ih =>
    have hsplit : sent (x :: os) = sent [x] ++ sent os := sent_append [x] os
    have hevents : eventsOf i (x :: os) = eventsOf i [x] ++ eventsOf i os :=
      eventsOf_append i [x] os
    rw [hsplit, hevents, List.filter_append, List.map_append, ih, sentMessages, sentMessages,
      List.filterMap_append]
    congr 1
    cases x with
    | effect g ev =>
      simp only [sent, Action.message?, eventsOf, Action.eventOf, List.filterMap_cons,
        List.filterMap_nil]
      by_cases hg : g = i
      · simp only [hg, if_true, List.filterMap_cons, List.filterMap_nil]
        cases handed ev with
        | none => rfl
        | some m => simp
      · simp only [hg, if_false, List.filterMap_nil]
        cases handed ev with
        | none => rfl
        | some m => simp [hg]
    | _ => rfl

/-- Whether the goroutine of a generation is executing `run`. -/
def Executing (s : System) (i : ℕ) : Prop := ∃ p, pcAt s.gens i = some (.running p)

/-! ### What an output promises -/

/-- Generations before this one will not run again. -/
def Action.bound : Action → ℕ
  | .effect g _ => g
  | .launched g => g
  | .cancelReturned _ => 0
  | .shutdownReturned created => created

/-- What an output promises of a later one. -/
def Promises : Action → Action → Prop
  | x, .effect i _ => x.bound ≤ i
  | .launched g, .launched g' => g < g'
  | .launched g, .shutdownReturned created => g < created
  | _, _ => True

/-- Whatever is live, about to start or still to come is numbered `b` or above. -/
structure Beyond (b : ℕ) (s : System) : Prop where
  created : b ≤ s.gens.length
  live : ∀ i pc, pcAt s.gens i = some pc → pc.live = true → b ≤ i
  starting : ∀ g, s.caller.starting = some g → b ≤ g

/-- A state in which the promise of an output can be kept. -/
structure Honours (x : Action) (s : System) : Prop where
  beyond : Beyond x.bound s
  launched : ∀ g, x = .launched g →
    g < s.gens.length ∧ ∀ g', s.caller.starting = some g' → g < g'

section Promise

variable {o : Orchestrator} {s s' : System} {out : List Action}

theorem step_length_le {a : Label} (h : step o s a = some (s', out)) :
    s.gens.length ≤ s'.gens.length := by
  rcases step_grows h with hlen | ⟨_, req, hgens⟩
  · exact hlen.ge
  · rw [hgens, List.length_append]
    exact Nat.le_add_right _ _

/-- What is live after a step was live, or about to start. -/
theorem step_live {a : Label} (hI : OneLive s) (h : step o s a = some (s', out)) {i : ℕ}
    {pc : GenerationPc} (hat : pcAt s'.gens i = some pc) (hl : pc.live = true) :
    (∃ pc', pcAt s.gens i = some pc' ∧ pc'.live = true) ∨ s.caller.starting = some i := by
  obtain ⟨g', hg', rfl⟩ := Option.map_eq_some_iff.mp hat
  cases hg : s.gens[i]? with
  | none =>
    have hnew := (step_new h hg hg').2.1
    rw [hnew] at hl
    cases hl
  | some g =>
    obtain ⟨g'', hg'', hev⟩ := step_evolves hI h hg
    rw [hg'] at hg''
    cases hg''
    exact (hev.live hl).imp_left fun h => ⟨g.pc, pcAt_of_get hg, h⟩

/-- A step keeps every promise. -/
theorem step_beyond {a : Label} {b : ℕ} (hI : OneLive s) (hb : Beyond b s)
    (h : step o s a = some (s', out)) : Beyond b s' := by
  constructor
  · exact hb.created.trans (step_length_le h)
  · intro i pc hat hl
    rcases step_live hI h hat hl with ⟨pc', hat', hl'⟩ | hstart
    · exact hb.live i pc' hat' hl'
    · exact hb.starting i hstart
  · intro g hg
    rcases step_starting h hg with hstart | rfl
    · exact hb.starting g hstart
    · exact hb.created

/-- The generation of a live goroutine is beyond all older ones. -/
theorem OneLive.beyond (hI : OneLive s) {i : ℕ} {pc : GenerationPc}
    (hat : pcAt s.gens i = some pc) (hl : pc.live = true) : Beyond i s := by
  constructor
  · exact Nat.le_of_lt (pcAt_lt hat)
  · intro j pc' hj hl'
    exact (hI.unique hat hl hj hl').le
  · intro g hg
    have hdead := hI.vacant (Caller.vacant_of_starting hg) i pc hat
    rw [hl] at hdead
    cases hdead

theorem step_honours {x : Action} {a : Label} (hI : OneLive s) (hx : Honours x s)
    (h : step o s a = some (s', out)) : Honours x s' := by
  refine ⟨step_beyond hI hx.beyond h, fun g hg => ?_⟩
  obtain ⟨hlt, hstart⟩ := hx.launched g hg
  refine ⟨hlt.trans_le (step_length_le h), fun g' hg' => ?_⟩
  rcases step_starting h hg' with hold | rfl
  · exact hstart g' hold
  · exact hlt

/-- A step emits only what was promised. -/
theorem step_promised {x : Action} {a : Label} (hI : OneLive s) (hx : Honours x s)
    (h : step o s a = some (s', out)) : ∀ y ∈ out, Promises x y := by
  intro y hy
  cases step_shows hI h with
  | nothing => cases hy
  | effect i g ans e k ha hg hpc hs =>
    cases List.mem_singleton.mp hy
    exact hx.beyond.live i _ (pcAt_of_get hg) (by rw [hpc]; rfl)
  | launched g ha hc hs =>
    cases List.mem_singleton.mp hy
    cases x with
    | launched g₀ => exact (hx.launched g₀ rfl).2 g (by rw [hc]; rfl)
    | _ => trivial
  | cancelReturned matched ha hc hs =>
    cases List.mem_singleton.mp hy
    cases x <;> trivial
  | shutdownReturned ha hc hgens hnone =>
    cases List.mem_singleton.mp hy
    cases x with
    | launched g₀ => exact (hx.launched g₀ rfl).1
    | _ => trivial

/-- An output is made into a state that honours its promise. -/
theorem step_out_honours {a : Label} (hI : OneLive s) (h : step o s a = some (s', out)) :
    out.Pairwise Promises ∧ ∀ x ∈ out, Honours x s' := by
  have hI' := step_oneLive s a s' out hI h
  cases step_shows hI h with
  | nothing => exact ⟨.nil, by simp⟩
  | effect i g ans e k ha hg hpc hs =>
    refine ⟨List.pairwise_singleton _ _, ?_⟩
    rw [List.forall_mem_singleton]
    have hat : pcAt s'.gens i = some (.running (k (s.answer g ans e))) := by
      rw [hs, System.pcAt_setPc, if_pos rfl, pcAt_of_get hg]
      rfl
    exact ⟨hI'.beyond hat rfl, fun _ hx => by cases hx⟩
  | launched g ha hc hs =>
    refine ⟨List.pairwise_singleton _ _, ?_⟩
    rw [List.forall_mem_singleton]
    have hcreated := (hI.starting g (by rw [hc]; rfl)).2
    obtain ⟨gen, hgen, _⟩ := Option.map_eq_some_iff.mp hcreated
    have hat : pcAt s'.gens g = some (.running (run o gen.req)) := by
      rw [hs, pcAt, System.update_get, if_pos rfl, hgen]
      rfl
    refine ⟨hI'.beyond hat rfl, ?_⟩
    rintro _ ⟨⟩
    refine ⟨pcAt_lt hat, fun g' hg' => ?_⟩
    rw [hs] at hg'
    cases hg'
  | cancelReturned matched ha hc hs =>
    refine ⟨List.pairwise_singleton _ _, ?_⟩
    rw [List.forall_mem_singleton]
    exact ⟨⟨Nat.zero_le _, fun _ _ _ _ => Nat.zero_le _, fun _ _ => Nat.zero_le _⟩,
      fun _ hx => by cases hx⟩
  | shutdownReturned ha hc hgens hnone =>
    refine ⟨List.pairwise_singleton _ _, ?_⟩
    rw [List.forall_mem_singleton]
    refine ⟨⟨by rw [hgens]; rfl, ?_, ?_⟩, fun _ hx => by cases hx⟩
    · intro i pc hat hl
      rw [hgens] at hat
      rw [hnone i pc hat] at hl
      cases hl
    · intro g hg
      rw [hc] at hg
      cases hg

/-- **What an output promises, later outputs keep.** -/
theorem exec_promises {store : Manifest} {as : List Label}
    (h : exec (step o) (.start store) as = some (s', out)) : out.Pairwise Promises :=
  exec_pairwise (R := Promises) (G := Honours) step_oneLive
    (fun _ _ _ _ _ hI hx hstep => ⟨step_honours hI hx hstep, step_promised hI hx hstep⟩)
    (fun _ _ _ _ hI hstep => step_out_honours hI hstep) (oneLive_start store) h

/-- Every effect belongs to a generation. -/
theorem exec_effect_lt {store : Manifest} {as : List Label}
    (h : exec (step o) (.start store) as = some (s', out)) {i : ℕ} {ev : Event Eff Resp}
    (hx : .effect i ev ∈ out) : i < s'.gens.length := by
  by_contra hge
  have hnone : s'.gens[i]? = none := List.getElem?_eq_none_iff.mpr (Nat.not_lt.mp hge)
  have hempty := (exec_tracesRuns h).2 i hnone
  have hmem : ev ∈ eventsOf i out := by
    refine List.mem_filterMap.mpr ⟨_, hx, ?_⟩
    simp only [Action.eventOf, if_true]
  rw [hempty] at hmem
  cases hmem

/-- The messages are the generations' messages, block after block. -/
theorem exec_sent_blocks {store : Manifest} {as : List Label}
    (h : exec (step o) (.start store) as = some (s', out)) :
    sent out = (List.range s'.gens.length).flatMap fun i => (sent out).filter fun x => x.1 = i := by
  refine eq_flatMap_filter s'.gens.length ?_ ?_
  · refine List.Pairwise.filterMap _ ?_ (exec_promises h)
    rintro x y hxy b hb b' hb'
    cases x with
    | effect i ev =>
      cases y with
      | effect j ev' =>
        obtain ⟨_, _, rfl⟩ := Option.map_eq_some_iff.mp hb
        obtain ⟨_, _, rfl⟩ := Option.map_eq_some_iff.mp hb'
        exact hxy
      | _ => cases hb'
    | _ => cases hb
  · rintro ⟨i, m⟩ hm
    obtain ⟨ev, hx, _⟩ := mem_sent_iff.mp hm
    exact exec_effect_lt h hx

end Promise

/-! ### Single flight -/

/-- **Single flight and no stream interleaving.**  In every run of the system: at most one
goroutine is executing `run`; the messages are one block for each generation, in the order of
the calls, and each block is what a trace of `run` on that call's request hands over; a
goroutine's cleanup empties `cur` only when it is its own; after `Generate` has returned no
message of an older generation is handed over, and after `Shutdown` has returned none of any
generation so far. -/
theorem single_flight (o : Orchestrator) (store : Manifest) (as : List Label) (s : System)
    (os : List Action) (h : exec (step o) (.start store) as = some (s, os)) :
    (∀ i j, Executing s i → Executing s j → i = j) ∧
    (sent os = (List.range s.gens.length).flatMap fun i => (sent os).filter fun x => x.1 = i) ∧
    (∀ i g, s.gens[i]? = some g → ∃ evs q, Trace (run o g.req) evs q ∧
      ((sent os).filter fun x => x.1 = i).map Prod.snd = sentMessages evs) ∧
    (∀ i ans s' out, step o s (.goroutine i ans) = some (s', out) →
      s'.cur = s.cur ∨ (s.cur = some i ∧ s'.cur = none)) ∧
    (∀ os₁ g os₂, os = os₁ ++ .launched g :: os₂ →
      (∀ g', .launched g' ∈ os₁ → g' < g) ∧ ∀ i m, (i, m) ∈ sent os₂ → g ≤ i) ∧
    (∀ os₁ created os₂, os = os₁ ++ .shutdownReturned created :: os₂ →
      (∀ g', .launched g' ∈ os₁ → g' < created) ∧ ∀ i m, (i, m) ∈ sent os₂ → created ≤ i) := by
  have hI : OneLive s := exec_oneLive (oneLive_start store) h
  have hpromises := exec_promises h
  refine ⟨?_, exec_sent_blocks h, ?_, fun i ans s' out hstep => step_goroutine_cur hI hstep,
    ?_, ?_⟩
  · rintro i j ⟨p, hi⟩ ⟨p', hj⟩
    exact hI.unique hi rfl hj rfl
  · intro i g hg
    exact ⟨_, _, ((exec_tracesRuns h).1 i g hg).2, sent_filter_eq i os⟩
  · rintro os₁ g os₂ rfl
    obtain ⟨_, hafter, hacross⟩ := List.pairwise_append.mp hpromises
    refine ⟨fun g' hg' => hacross _ hg' _ List.mem_cons_self, fun i m hm => ?_⟩
    obtain ⟨ev, hx, _⟩ := mem_sent_iff.mp hm
    exact (List.pairwise_cons.mp hafter).1 _ hx
  · rintro os₁ created os₂ rfl
    obtain ⟨_, hafter, hacross⟩ := List.pairwise_append.mp hpromises
    refine ⟨fun g' hg' => hacross _ hg' _ List.mem_cons_self, fun i m hm => ?_⟩
    obtain ⟨ev, hx, _⟩ := mem_sent_iff.mp hm
    exact (List.pairwise_cons.mp hafter).1 _ hx

/-- So many statements of the caller. -/
def callerSteps (n : ℕ) : List Label := List.replicate n .caller

/-- So many statements of a goroutine, with the same answers. -/
def goroutineSteps (i n : ℕ) (ans : Answers) : List Label := List.replicate n (.goroutine i ans)

/-- The model was cancelled. -/
def cancelledAnswers : Answers := ⟨0, .error ⟨"context canceled", false, none⟩, 0, true⟩

/-- The model answers with a recipe. -/
def recipeAnswers (recipe : Recipe) : Answers := ⟨0, .ok (some recipe), 0, true⟩

/-- A generation superseded while the model works, and its successor shut down as it streams. -/
def supersededSchedule : List Label :=
  [.call (.generate meadowRequest)] ++ callerSteps 9 ++ goroutineSteps 0 6 cancelledAnswers ++
    [.call (.generate meadowRequest)] ++ callerSteps 5 ++ goroutineSteps 0 7 cancelledAnswers ++
    callerSteps 6 ++ goroutineSteps 1 10 (recipeAnswers meadowRecipe) ++
    [.call .shutdown] ++ callerSteps 5 ++ goroutineSteps 1 8 (recipeAnswers meadowRecipe) ++
    callerSteps 1

theorem single_flight_superseded :
    ∃ s os, exec (step (.new sawtoothDraws)) (.start meadowManifest) supersededSchedule =
        some (s, os) ∧ (sent os).map Prod.fst = [1, 1] ∧
      (∀ i j, Executing s i → Executing s j → i = j) ∧
      ∀ os₁ created os₂, os = os₁ ++ .shutdownReturned created :: os₂ →
        ∀ i m, (i, m) ∈ sent os₂ → created ≤ i := by
  have hsome : (exec (step (.new sawtoothDraws)) (.start meadowManifest) supersededSchedule).map
      (fun p => (sent p.2).map Prod.fst) = some [1, 1] := by decide +kernel
  obtain ⟨⟨s, os⟩, hexec, hsent⟩ := Option.map_eq_some_iff.mp hsome
  obtain ⟨hone, _, _, _, _, hshutdown⟩ :=
    single_flight (.new sawtoothDraws) meadowManifest supersededSchedule s os hexec
  exact ⟨s, os, hexec, hsent, hone, fun os₁ created os₂ hos => (hshutdown os₁ created os₂ hos).2⟩

end AetherForge
