import Mathlib.Data.Set.Lattice
import AetherForge.Library.Program

/-!
# The messages a program hands over

An `Observation` of a program's events says which events hand a message over, which events are
`smooth` (nothing interfered), and which answers are `allowed`.  Against a language `L` of
message lists:

* `Concludes O L p` — whatever happens, the messages of a run of `p` so far are a prefix of a
  list in `L`; a smooth run that reaches a result has handed over a whole list of `L`;
* `Delivers O L p` — the same for a program that returns whether to go on: it returns `true`
  only after a whole list of `L`, and a smooth run returns `true`;
* `Yields O S p` — `p` hands nothing over, and its results satisfy `S`;
* `Emits O P p` — every message that `p` hands over satisfies `P`;
* `Halts O p` — after a message that is not smooth, `p` hands nothing over.

The rules follow the ways programs are built: `concludes_call`, `concludes_bind`,
`delivers_call`, `delivers_and_then`, `concludes_of_delivers`, `emits_call`, `emits_bind`,
`halts_call`, `stops_and_then`, `halts_of_stops`.
-/

namespace Interaction

/-- What is observed of a program's events. -/
structure Observation (E : Type) (R : E → Type) (M : Type) where
  message : Event E R → Option M
  smooth : Event E R → Prop
  allowed : Event E R → Prop

namespace Observation

variable {E : Type} {R : E → Type} {M : Type} (O : Observation E R M)

/-- The messages handed over, in order. -/
def messages (evs : List (Event E R)) : List M := evs.filterMap O.message

def Allowed (evs : List (Event E R)) : Prop := ∀ ev ∈ evs, O.allowed ev

def Smooth (evs : List (Event E R)) : Prop := ∀ ev ∈ evs, O.smooth ev

variable {O}

@[simp] theorem messages_nil : O.messages [] = [] := rfl

theorem messages_append (evs evs' : List (Event E R)) :
    O.messages (evs ++ evs') = O.messages evs ++ O.messages evs' :=
  List.filterMap_append

theorem messages_cons_none {ev : Event E R} (h : O.message ev = none) (evs : List (Event E R)) :
    O.messages (ev :: evs) = O.messages evs :=
  List.filterMap_cons_none h

theorem messages_cons_some {ev : Event E R} {m : M} (h : O.message ev = some m)
    (evs : List (Event E R)) : O.messages (ev :: evs) = m :: O.messages evs :=
  List.filterMap_cons_some h

theorem allowed_append {evs evs' : List (Event E R)} :
    O.Allowed (evs ++ evs') ↔ O.Allowed evs ∧ O.Allowed evs' :=
  List.forall_mem_append

theorem smooth_append {evs evs' : List (Event E R)} :
    O.Smooth (evs ++ evs') ↔ O.Smooth evs ∧ O.Smooth evs' :=
  List.forall_mem_append

theorem allowed_cons {ev : Event E R} {evs : List (Event E R)} :
    O.Allowed (ev :: evs) ↔ O.allowed ev ∧ O.Allowed evs :=
  List.forall_mem_cons

theorem smooth_cons {ev : Event E R} {evs : List (Event E R)} :
    O.Smooth (ev :: evs) ↔ O.smooth ev ∧ O.Smooth evs :=
  List.forall_mem_cons

end Observation

section Rules

variable {E : Type} {R : E → Type} {M : Type} {α β : Type} {O : Observation E R M}

/-! ### Programs that hand nothing over -/

/-- The program hands nothing over, and its results satisfy `S`. -/
structure Yields (O : Observation E R M) (S : α → Prop) (p : Prog E R α) : Prop where
  quiet : ∀ evs q, O.Allowed evs → Trace p evs q → O.messages evs = []
  result : ∀ evs a, O.Allowed evs → Trace p evs (.ret a) → S a

theorem yields_ret {S : α → Prop} {a : α} (h : S a) : Yields O S (.ret a : Prog E R α) := by
  constructor
  · intro evs q _ ht
    rw [(trace_ret_iff.mp ht).1, Observation.messages_nil]
  · intro evs b _ ht
    cases (trace_ret_iff.mp ht).2
    exact h

theorem yields_call {S : α → Prop} {e : E} {k : R e → Prog E R α}
    (hmsg : ∀ r, O.message ⟨e, r⟩ = none)
    (h : ∀ r, O.allowed ⟨e, r⟩ → Yields O S (k r)) : Yields O S (.call e k) := by
  constructor
  · intro evs q hall ht
    rcases trace_call_iff.mp ht with ⟨rfl, _⟩ | ⟨r, evs', rfl, ht'⟩
    · rfl
    · obtain ⟨hr, hall'⟩ := Observation.allowed_cons.mp hall
      rw [Observation.messages_cons_none (hmsg r)]
      exact (h r hr).quiet evs' q hall' ht'
  · intro evs a hall ht
    rcases trace_call_iff.mp ht with ⟨_, hq⟩ | ⟨r, evs', rfl, ht'⟩
    · cases hq
    · obtain ⟨hr, hall'⟩ := Observation.allowed_cons.mp hall
      exact (h r hr).result evs' a hall' ht'

/-! ### Programs that conclude -/

/-- The messages so far are a prefix of a list in `L`; a smooth run to a result hands over a
whole list of `L`. -/
structure Concludes (O : Observation E R M) (L : Set (List M)) (p : Prog E R α) : Prop where
  within : ∀ evs q, O.Allowed evs → Trace p evs q → ∃ ms ∈ L, O.messages evs <+: ms
  finishes : ∀ evs a, O.Allowed evs → O.Smooth evs → Trace p evs (.ret a) → O.messages evs ∈ L

theorem Concludes.mono {L L' : Set (List M)} {p : Prog E R α} (h : Concludes O L p)
    (hL : L ⊆ L') : Concludes O L' p := by
  constructor
  · intro evs q hall ht
    obtain ⟨ms, hms, hpre⟩ := h.within evs q hall ht
    exact ⟨ms, hL hms, hpre⟩
  · intro evs a hall hsm ht
    exact hL (h.finishes evs a hall hsm ht)

/-- An effect that hands nothing over, after which the program concludes — or, when the answer
is not smooth, may stop at once. -/
theorem concludes_call {L : Set (List M)} (hL : L.Nonempty) {e : E} {k : R e → Prog E R α}
    (hmsg : ∀ r, O.message ⟨e, r⟩ = none)
    (h : ∀ r, O.allowed ⟨e, r⟩ →
      Concludes O L (k r) ∨ (¬O.smooth ⟨e, r⟩ ∧ ∃ a, k r = .ret a)) :
    Concludes O L (.call e k) := by
  constructor
  · intro evs q hall ht
    obtain ⟨ms, hms⟩ := hL
    rcases trace_call_iff.mp ht with ⟨rfl, _⟩ | ⟨r, evs', rfl, ht'⟩
    · exact ⟨ms, hms, List.nil_prefix⟩
    · obtain ⟨hr, hall'⟩ := Observation.allowed_cons.mp hall
      rw [Observation.messages_cons_none (hmsg r)]
      rcases h r hr with hk | ⟨_, a, hk⟩
      · exact hk.within evs' q hall' ht'
      · rw [hk, trace_ret_iff] at ht'
        rw [ht'.1]
        exact ⟨ms, hms, List.nil_prefix⟩
  · intro evs a hall hsm ht
    rcases trace_call_iff.mp ht with ⟨_, hq⟩ | ⟨r, evs', rfl, ht'⟩
    · cases hq
    · obtain ⟨hr, hall'⟩ := Observation.allowed_cons.mp hall
      obtain ⟨hsr, hsm'⟩ := Observation.smooth_cons.mp hsm
      rw [Observation.messages_cons_none (hmsg r)]
      rcases h r hr with hk | ⟨hns, _⟩
      · exact hk.finishes evs' a hall' hsm' ht'
      · exact absurd hsr hns

/-- A last effect that hands one message over. -/
theorem concludes_last {e : E} {k : R e → Prog E R α} {m : M}
    (hmsg : ∀ r, O.message ⟨e, r⟩ = some m) (hk : ∀ r, ∃ a, k r = .ret a) :
    Concludes O {[m]} (.call e k) := by
  have hone : ∀ evs q, Trace (.call e k) evs q → q = .call e k ∧ O.messages evs = [] ∨
      O.messages evs = [m] := by
    intro evs q ht
    rcases trace_call_iff.mp ht with ⟨rfl, hq⟩ | ⟨r, evs', rfl, ht'⟩
    · exact .inl ⟨hq, rfl⟩
    · obtain ⟨a, ha⟩ := hk r
      rw [ha, trace_ret_iff] at ht'
      rw [Observation.messages_cons_some (hmsg r), ht'.1]
      exact .inr rfl
  constructor
  · intro evs q _ ht
    refine ⟨[m], rfl, ?_⟩
    rcases hone evs q ht with ⟨_, h⟩ | h
    · rw [h]
      exact List.nil_prefix
    · exact h ▸ List.prefix_rfl
  · intro evs a _ _ ht
    rcases hone evs _ ht with ⟨hq, _⟩ | h
    · cases hq
    · exact h

/-- A quiet program, then one that concludes. -/
theorem concludes_bind {L : Set (List M)} (hL : L.Nonempty) {S : α → Prop} {p : Prog E R α}
    {f : α → Prog E R β} (hp : Yields O S p) (hf : ∀ a, S a → Concludes O L (f a)) :
    Concludes O L (p >>= f) := by
  constructor
  · intro evs q hall ht
    rcases trace_bind ht with ⟨p', hp', _⟩ | ⟨evs₁, a, evs₂, rfl, h₁, h₂⟩
    · obtain ⟨ms, hms⟩ := hL
      rw [hp.quiet evs p' hall hp']
      exact ⟨ms, hms, List.nil_prefix⟩
    · obtain ⟨hall₁, hall₂⟩ := Observation.allowed_append.mp hall
      rw [Observation.messages_append, hp.quiet evs₁ _ hall₁ h₁, List.nil_append]
      exact (hf a (hp.result evs₁ a hall₁ h₁)).within evs₂ q hall₂ h₂
  · intro evs b hall hsm ht
    obtain ⟨evs₁, a, evs₂, rfl, h₁, h₂⟩ := trace_bind_ret ht
    obtain ⟨hall₁, hall₂⟩ := Observation.allowed_append.mp hall
    obtain ⟨_, hsm₂⟩ := Observation.smooth_append.mp hsm
    rw [Observation.messages_append, hp.quiet evs₁ _ hall₁ h₁, List.nil_append]
    exact (hf a (hp.result evs₁ a hall₁ h₁)).finishes evs₂ b hall₂ hsm₂ h₂

/-! ### Programs that deliver and say whether to go on -/

/-- The program returns `true` only after a whole list of `L`, and a smooth run returns
`true`. -/
structure Delivers (O : Observation E R M) (L : Set (List M)) (p : Prog E R Bool) : Prop where
  within : ∀ evs q, O.Allowed evs → Trace p evs q → ∃ ms ∈ L, O.messages evs <+: ms
  whole : ∀ evs, O.Allowed evs → Trace p evs (.ret true) → O.messages evs ∈ L
  smooth : ∀ evs b, O.Allowed evs → O.Smooth evs → Trace p evs (.ret b) → b = true

theorem Delivers.mono {L L' : Set (List M)} {p : Prog E R Bool} (h : Delivers O L p)
    (hL : L ⊆ L') : Delivers O L' p := by
  refine ⟨fun evs q hall ht => ?_, fun evs hall ht => hL (h.whole evs hall ht), h.smooth⟩
  obtain ⟨ms, hms, hpre⟩ := h.within evs q hall ht
  exact ⟨ms, hL hms, hpre⟩

theorem delivers_ret : Delivers O {[]} (.ret true : Prog E R Bool) := by
  constructor
  · intro evs q _ ht
    rw [(trace_ret_iff.mp ht).1]
    exact ⟨[], rfl, List.prefix_rfl⟩
  · intro evs _ ht
    rw [(trace_ret_iff.mp ht).1]
    rfl
  · intro evs b _ _ ht
    cases (trace_ret_iff.mp ht).2
    rfl

/-- An effect that hands nothing over, then a program that delivers. -/
theorem delivers_call {L : Set (List M)} (hL : L.Nonempty) {e : E} {k : R e → Prog E R Bool}
    (hmsg : ∀ r, O.message ⟨e, r⟩ = none) (h : ∀ r, O.allowed ⟨e, r⟩ → Delivers O L (k r)) :
    Delivers O L (.call e k) := by
  constructor
  · intro evs q hall ht
    rcases trace_call_iff.mp ht with ⟨rfl, _⟩ | ⟨r, evs', rfl, ht'⟩
    · obtain ⟨ms, hms⟩ := hL
      exact ⟨ms, hms, List.nil_prefix⟩
    · obtain ⟨hr, hall'⟩ := Observation.allowed_cons.mp hall
      rw [Observation.messages_cons_none (hmsg r)]
      exact (h r hr).within evs' q hall' ht'
  · intro evs hall ht
    rcases trace_call_iff.mp ht with ⟨_, hq⟩ | ⟨r, evs', rfl, ht'⟩
    · cases hq
    · obtain ⟨hr, hall'⟩ := Observation.allowed_cons.mp hall
      rw [Observation.messages_cons_none (hmsg r)]
      exact (h r hr).whole evs' hall' ht'
  · intro evs b hall hsm ht
    rcases trace_call_iff.mp ht with ⟨_, hq⟩ | ⟨r, evs', rfl, ht'⟩
    · cases hq
    · obtain ⟨hr, hall'⟩ := Observation.allowed_cons.mp hall
      exact (h r hr).smooth evs' b hall' (Observation.smooth_cons.mp hsm).2 ht'

/-- Deliver, and go on only if told to. -/
def andThen (p p' : Prog E R Bool) : Prog E R Bool :=
  p >>= fun ok => if ok then p' else .ret false

/-- **Sequencing rule for deliveries.** -/
theorem delivers_and_then {L L' : Set (List M)} (hL' : L'.Nonempty) {p p' : Prog E R Bool}
    (hp : Delivers O L p) (hp' : Delivers O L' p') :
    Delivers O (Set.image2 (· ++ ·) L L') (andThen p p') := by
  constructor
  · intro evs q hall ht
    obtain ⟨ms', hms'⟩ := hL'
    rcases trace_bind ht with ⟨p₁, hp₁, _⟩ | ⟨evs₁, ok, evs₂, rfl, h₁, h₂⟩
    · obtain ⟨ms, hms, hpre⟩ := hp.within evs p₁ hall hp₁
      exact ⟨ms ++ ms', ⟨ms, hms, ms', hms', rfl⟩, hpre.trans (List.prefix_append _ _)⟩
    · obtain ⟨hall₁, hall₂⟩ := Observation.allowed_append.mp hall
      rw [Observation.messages_append]
      cases ok with
      | true =>
        obtain ⟨ms₂, hms₂, hpre⟩ := hp'.within evs₂ q hall₂ h₂
        exact ⟨_, ⟨_, hp.whole evs₁ hall₁ h₁, ms₂, hms₂, rfl⟩,
          (List.prefix_append_right_inj _).mpr hpre⟩
      | false =>
        obtain ⟨ms, hms, hpre⟩ := hp.within evs₁ _ hall₁ h₁
        rw [(trace_ret_iff.mp h₂).1, Observation.messages_nil, List.append_nil]
        exact ⟨ms ++ ms', ⟨ms, hms, ms', hms', rfl⟩, hpre.trans (List.prefix_append _ _)⟩
  · intro evs hall ht
    obtain ⟨evs₁, ok, evs₂, rfl, h₁, h₂⟩ := trace_bind_ret ht
    obtain ⟨hall₁, hall₂⟩ := Observation.allowed_append.mp hall
    rw [Observation.messages_append]
    cases ok with
    | true => exact ⟨_, hp.whole evs₁ hall₁ h₁, _, hp'.whole evs₂ hall₂ h₂, rfl⟩
    | false => cases (trace_ret_iff.mp h₂).2
  · intro evs b hall hsm ht
    obtain ⟨evs₁, ok, evs₂, rfl, h₁, h₂⟩ := trace_bind_ret ht
    obtain ⟨hall₁, hall₂⟩ := Observation.allowed_append.mp hall
    obtain ⟨hsm₁, hsm₂⟩ := Observation.smooth_append.mp hsm
    rw [hp.smooth evs₁ ok hall₁ hsm₁ h₁] at h₂
    exact hp'.smooth evs₂ b hall₂ hsm₂ h₂

/-- A delivery whose result is dropped concludes. -/
theorem concludes_of_delivers {L : Set (List M)} {p : Prog E R Bool} (hp : Delivers O L p)
    (b : Bool → β) : Concludes O L (p >>= fun ok => .ret (b ok)) := by
  constructor
  · intro evs q hall ht
    rcases trace_bind ht with ⟨p₁, hp₁, _⟩ | ⟨evs₁, ok, evs₂, rfl, h₁, h₂⟩
    · exact hp.within evs p₁ hall hp₁
    · rw [(trace_ret_iff.mp h₂).1, List.append_nil] at hall ⊢
      exact hp.within evs₁ _ hall h₁
  · intro evs a hall hsm ht
    obtain ⟨evs₁, ok, evs₂, rfl, h₁, h₂⟩ := trace_bind_ret ht
    rw [(trace_ret_iff.mp h₂).1, List.append_nil] at hall hsm ⊢
    cases hp.smooth evs₁ ok hall hsm h₁
    exact hp.whole evs₁ hall h₁

/-! ### Messages one by one -/

/-- Every message handed over satisfies `P`. -/
def Emits (O : Observation E R M) (P : M → Prop) (p : Prog E R α) : Prop :=
  ∀ evs q, O.Allowed evs → Trace p evs q → ∀ m ∈ O.messages evs, P m

theorem emits_ret {P : M → Prop} {a : α} : Emits O P (.ret a : Prog E R α) := by
  intro evs q _ ht m hm
  rw [(trace_ret_iff.mp ht).1] at hm
  cases hm

theorem emits_call {P : M → Prop} {e : E} {k : R e → Prog E R α}
    (hmsg : ∀ r m, O.message ⟨e, r⟩ = some m → P m)
    (h : ∀ r, O.allowed ⟨e, r⟩ → Emits O P (k r)) : Emits O P (.call e k) := by
  intro evs q hall ht m hm
  rcases trace_call_iff.mp ht with ⟨rfl, _⟩ | ⟨r, evs', rfl, ht'⟩
  · cases hm
  · obtain ⟨hr, hall'⟩ := Observation.allowed_cons.mp hall
    cases hhead : O.message ⟨e, r⟩ with
    | none =>
      rw [Observation.messages_cons_none hhead] at hm
      exact h r hr evs' q hall' ht' m hm
    | some m' =>
      rw [Observation.messages_cons_some hhead] at hm
      rcases List.mem_cons.mp hm with rfl | hm
      · exact hmsg r _ hhead
      · exact h r hr evs' q hall' ht' m hm

theorem emits_call_quiet {P : M → Prop} {e : E} {k : R e → Prog E R α}
    (hmsg : ∀ r, O.message ⟨e, r⟩ = none) (h : ∀ r, O.allowed ⟨e, r⟩ → Emits O P (k r)) :
    Emits O P (.call e k) := by
  refine emits_call (fun r m hm => ?_) h
  rw [hmsg r] at hm
  cases hm

/-- **Sequencing rule for emissions**, with what is known of the first program's results. -/
theorem emits_bind {P : M → Prop} {S : α → Prop} {p : Prog E R α} {f : α → Prog E R β}
    (hp : Emits O P p) (hS : ∀ evs a, O.Allowed evs → Trace p evs (.ret a) → S a)
    (hf : ∀ a, S a → Emits O P (f a)) : Emits O P (p >>= f) := by
  intro evs q hall ht m hm
  rcases trace_bind ht with ⟨p', hp', _⟩ | ⟨evs₁, a, evs₂, rfl, h₁, h₂⟩
  · exact hp evs p' hall hp' m hm
  · obtain ⟨hall₁, hall₂⟩ := Observation.allowed_append.mp hall
    rw [Observation.messages_append, List.mem_append] at hm
    rcases hm with hm | hm
    · exact hp evs₁ _ hall₁ h₁ m hm
    · exact hf a (hS evs₁ a hall₁ h₁) evs₂ q hall₂ h₂ m hm

/-- A program that hands nothing over, and then one that emits. -/
theorem emits_of_yields {P : M → Prop} {S : α → Prop} {p : Prog E R α} {f : α → Prog E R β}
    (hp : Yields O S p) (hf : ∀ a, S a → Emits O P (f a)) : Emits O P (p >>= f) := by
  refine emits_bind ?_ hp.result hf
  intro evs q hall ht m hm
  rw [hp.quiet evs q hall ht] at hm
  cases hm

theorem emits_and_then {P : M → Prop} {p p' : Prog E R Bool} (hp : Emits O P p)
    (hp' : Emits O P p') : Emits O P (andThen p p') := by
  refine emits_bind (S := fun _ => True) hp (fun _ _ _ _ => trivial) fun ok _ => ?_
  cases ok with
  | true => exact hp'
  | false => exact emits_ret

/-- Fewer answers are allowed. -/
theorem Yields.weaken {O' : Observation E R M} {S : α → Prop} {p : Prog E R α}
    (h : Yields O S p) (hmessage : O'.message = O.message)
    (hallowed : ∀ ev, O'.allowed ev → O.allowed ev) : Yields O' S p := by
  have hall : ∀ evs, O'.Allowed evs → O.Allowed evs :=
    fun evs hevs ev hev => hallowed ev (hevs ev hev)
  constructor
  · intro evs q hevs ht
    have hquiet := h.quiet evs q (hall evs hevs) ht
    rwa [Observation.messages, ← hmessage] at hquiet
  · intro evs a hevs ht
    exact h.result evs a (hall evs hevs) ht

/-! ### Programs that stop at a failure -/

/-- After a message that is not smooth, nothing more is handed over. -/
def Halts (O : Observation E R M) (p : Prog E R α) : Prop :=
  ∀ evs ev evs' q, O.Allowed (evs ++ ev :: evs') → Trace p (evs ++ ev :: evs') q →
    (O.message ev).isSome → ¬O.smooth ev → O.messages evs' = []

/-- The same of a program that returns whether to go on: it returns `true` only if every message
was smooth. -/
structure Stops (O : Observation E R M) (p : Prog E R Bool) : Prop where
  halts : Halts O p
  smooth : ∀ evs, O.Allowed evs → Trace p evs (.ret true) → ∀ ev ∈ evs, (O.message ev).isSome →
    O.smooth ev

/-- An element of two lists in a row is in the first or in the second. -/
theorem append_cons_split {ev : Event E R} {evs evs' evs₁ evs₂ : List (Event E R)}
    (h : evs ++ ev :: evs' = evs₁ ++ evs₂) :
    (∃ rest, evs₁ = evs ++ ev :: rest ∧ evs' = rest ++ evs₂) ∨
      ∃ rest, evs = evs₁ ++ rest ∧ evs₂ = rest ++ ev :: evs' := by
  rcases List.append_eq_append_iff.mp h with ⟨rest, rfl, hrest⟩ | ⟨rest, rfl, hrest⟩
  · cases rest with
    | nil => exact .inr ⟨[], by simp, by simpa using hrest.symm⟩
    | cons ev' rest =>
      obtain ⟨rfl, rfl⟩ := List.cons.inj hrest
      exact .inl ⟨rest, rfl, rfl⟩
  · exact .inr ⟨rest, rfl, hrest⟩

theorem halts_ret {a : α} : Halts O (.ret a : Prog E R α) := by
  intro evs ev evs' q _ ht
  obtain ⟨hnil, -⟩ := trace_ret_iff.mp ht
  simp at hnil

/-- An effect that hands nothing over. -/
theorem halts_call {e : E} {k : R e → Prog E R α} (hmsg : ∀ r, O.message ⟨e, r⟩ = none)
    (h : ∀ r, O.allowed ⟨e, r⟩ → Halts O (k r)) : Halts O (.call e k) := by
  intro evs ev evs' q hall ht hsome hfails
  rcases trace_call_iff.mp ht with ⟨hnil, -⟩ | ⟨r, evs'', heq, ht'⟩
  · simp at hnil
  · cases evs with
    | nil =>
      obtain ⟨rfl, -⟩ := List.cons.inj heq
      rw [hmsg r] at hsome
      cases hsome
    | cons ev₀ evs =>
      obtain ⟨rfl, rfl⟩ := List.cons.inj heq
      obtain ⟨hr, hall'⟩ := Observation.allowed_cons.mp hall
      exact h r hr evs ev evs' q hall' ht' hsome hfails

/-- An effect after which the program is done. -/
theorem halts_last {e : E} {k : R e → Prog E R α} (hk : ∀ r, ∃ a, k r = .ret a) :
    Halts O (.call e k) := by
  intro evs ev evs' q _ ht _ _
  rcases trace_call_iff.mp ht with ⟨hnil, -⟩ | ⟨r, evs'', heq, ht'⟩
  · simp at hnil
  · obtain ⟨a, ha⟩ := hk r
    rw [ha] at ht'
    obtain ⟨rfl, -⟩ := trace_ret_iff.mp ht'
    cases evs with
    | nil =>
      obtain ⟨-, rfl⟩ := List.cons.inj heq
      rfl
    | cons ev₀ evs => simp at heq

/-- A program that hands nothing over, and then one that stops. -/
theorem halts_of_yields {S : α → Prop} {p : Prog E R α} {f : α → Prog E R β}
    (hp : Yields O S p) (hf : ∀ a, S a → Halts O (f a)) : Halts O (p >>= f) := by
  intro evs ev evs' q hall ht hsome hfails
  have hquiet : ∀ evs₁ p₁, O.Allowed evs₁ → Trace p evs₁ p₁ → ev ∉ evs₁ := by
    intro evs₁ p₁ hall₁ ht₁ hmem
    have hnone := List.filterMap_eq_nil_iff.mp (hp.quiet evs₁ p₁ hall₁ ht₁) ev hmem
    rw [hnone] at hsome
    cases hsome
  rcases trace_bind ht with ⟨p', hp', -⟩ | ⟨evs₁, a, evs₂, heq, h₁, h₂⟩
  · exact absurd (List.mem_append_right _ List.mem_cons_self) (hquiet _ _ hall hp')
  · rw [heq] at hall
    obtain ⟨hall₁, hall₂⟩ := Observation.allowed_append.mp hall
    rcases append_cons_split heq with ⟨rest, rfl, -⟩ | ⟨rest, -, rfl⟩
    · exact absurd (List.mem_append_right _ List.mem_cons_self) (hquiet _ _ hall₁ h₁)
    · exact hf a (hp.result evs₁ a hall₁ h₁) rest ev evs' q hall₂ h₂ hsome hfails

theorem stops_ret : Stops O (.ret true : Prog E R Bool) := by
  refine ⟨halts_ret, fun evs _ ht ev hev => ?_⟩
  rw [(trace_ret_iff.mp ht).1] at hev
  cases hev

/-- **Sequencing rule for programs that stop.** -/
theorem stops_and_then {p p' : Prog E R Bool} (hp : Stops O p) (hp' : Stops O p') :
    Stops O (andThen p p') := by
  constructor
  · intro evs ev evs' q hall ht hsome hfails
    rcases trace_bind ht with ⟨p₁, hp₁, -⟩ | ⟨evs₁, ok, evs₂, heq, h₁, h₂⟩
    · exact hp.halts evs ev evs' p₁ hall hp₁ hsome hfails
    · rw [heq] at hall
      obtain ⟨hall₁, hall₂⟩ := Observation.allowed_append.mp hall
      rcases append_cons_split heq with ⟨rest, rfl, rfl⟩ | ⟨rest, -, rfl⟩
      · -- the message that failed is one of the first program's
        have hrest := hp.halts evs ev rest _ hall₁ h₁ hsome hfails
        cases ok with
        | true => exact absurd (hp.smooth _ hall₁ h₁ ev (by simp) hsome) hfails
        | false => rwa [(trace_ret_iff.mp h₂).1, List.append_nil]
      · cases ok with
        | true => exact hp'.halts rest ev evs' q hall₂ h₂ hsome hfails
        | false =>
          obtain ⟨hnil, -⟩ := trace_ret_iff.mp h₂
          simp at hnil
  · intro evs hall ht ev hev hsome
    obtain ⟨evs₁, ok, evs₂, rfl, h₁, h₂⟩ := trace_bind_ret ht
    obtain ⟨hall₁, hall₂⟩ := Observation.allowed_append.mp hall
    cases ok with
    | true =>
      rcases List.mem_append.mp hev with hev | hev
      · exact hp.smooth evs₁ hall₁ h₁ ev hev hsome
      · exact hp'.smooth evs₂ hall₂ h₂ ev hev hsome
    | false => cases (trace_ret_iff.mp h₂).2

theorem stops_call {e : E} {k : R e → Prog E R Bool} (hmsg : ∀ r, O.message ⟨e, r⟩ = none)
    (h : ∀ r, O.allowed ⟨e, r⟩ → Stops O (k r)) : Stops O (.call e k) := by
  refine ⟨halts_call hmsg fun r hr => (h r hr).halts, fun evs hall ht ev hev hsome => ?_⟩
  rcases trace_call_iff.mp ht with ⟨-, hq⟩ | ⟨r, evs', rfl, ht'⟩
  · cases hq
  · obtain ⟨hr, hall'⟩ := Observation.allowed_cons.mp hall
    rcases List.mem_cons.mp hev with rfl | hev
    · rw [hmsg r] at hsome
      cases hsome
    · exact (h r hr).smooth evs' hall' ht' ev hev hsome

/-- The result is dropped. -/
theorem halts_of_stops {p : Prog E R Bool} (hp : Stops O p) (b : Bool → β) :
    Halts O (p >>= fun ok => .ret (b ok)) := by
  intro evs ev evs' q hall ht hsome hfails
  rcases trace_bind ht with ⟨p₁, hp₁, -⟩ | ⟨evs₁, ok, evs₂, heq, h₁, h₂⟩
  · exact hp.halts evs ev evs' p₁ hall hp₁ hsome hfails
  · rw [(trace_ret_iff.mp h₂).1, List.append_nil] at heq
    rw [← heq] at h₁
    exact hp.halts evs ev evs' _ hall h₁ hsome hfails

/-- **What went smoothly** is an initial part of what was handed over. -/
theorem Halts.smooth_prefix {p : Prog E R α} (h : Halts O p) {evs : List (Event E R)}
    {q : Prog E R α} (hall : O.Allowed evs) (ht : Trace p evs q) {passed : Event E R → Option M}
    (hsmooth : ∀ ev, O.smooth ev → passed ev = O.message ev)
    (hfails : ∀ ev, ¬O.smooth ev → passed ev = none) :
    evs.filterMap passed <+: O.messages evs := by
  have hstops : ∀ pre ev post, evs = pre ++ ev :: post → (O.message ev).isSome →
      ¬O.smooth ev → O.messages post = [] := by
    rintro pre ev post rfl hsome hbad
    exact h pre ev post q hall ht hsome hbad
  clear hall ht
  induction evs with
  | nil => exact List.nil_prefix
  | cons ev evs ih =>
    have hrest := ih fun pre ev' post heq => hstops (ev :: pre) ev' post (by rw [heq]; rfl)
    cases hmsg : O.message ev with
    | none =>
      have hnone : passed ev = none := by
        by_cases hok : O.smooth ev
        · rw [hsmooth ev hok, hmsg]
        · exact hfails ev hok
      rwa [List.filterMap_cons_none hnone, Observation.messages_cons_none hmsg]
    | some m =>
      rw [Observation.messages_cons_some hmsg]
      by_cases hok : O.smooth ev
      · rw [List.filterMap_cons_some ((hsmooth ev hok).trans hmsg)]
        exact (List.prefix_cons_inj m).mpr hrest
      · rw [hstops [] ev evs rfl (by rw [hmsg]; rfl) hok, List.prefix_nil] at hrest
        rw [List.filterMap_cons_none (hfails ev hok), hrest]
        exact List.nil_prefix

end Rules

end Interaction
