import AetherForge.Library.Transition

/-!
# Operations with outputs, and abstract machines that follow them

A total operation takes a state to the next one and shows a list of outputs.  Operations are
put together in sequence and over lists; what each of them does is stated as a relation between
the state before, the outputs and the state after.

* `Leads`, `Leads.seq` — what holds before, and what holds after;
* `Composable`, `meets_seq`, `meets_forEach` — a relation that holds of parts holds of the whole;
* `ShowsAll` — everything shown satisfies a predicate;
* `Follows` — the outputs, read one by one, drive an abstract machine from the abstraction of the
  state before to that of the state after;
* `follow_simulated` — a coarser machine accepts what a finer one does;
* `exec_meets` — what every operation meets, every run of operations meets.
-/

namespace Operation

open Transition

variable {σ ω α β : Type*}

/-- An operation: the next state, and what it shows. -/
abbrev Op (σ ω : Type*) := σ → σ × List ω

/-- Do nothing. -/
def skip : Op σ ω := fun s => (s, [])

/-- One after the other. -/
def seq (f g : Op σ ω) : Op σ ω := fun s => ((g (f s).1).1, (f s).2 ++ (g (f s).1).2)

/-- For each element of a list, in order. -/
def forEach (f : α → Op σ ω) : List α → Op σ ω
  | [] => skip
  | a :: as => seq (f a) (forEach f as)

/-- The step function whose labels select an operation. -/
def toStep (f : α → Op σ ω) : Step σ α ω := fun s a => some (f a s)

/-- A run of operations is never stuck. -/
theorem exec_toStep (f : α → Op σ ω) (s : σ) (as : List α) :
    ∃ t os, exec (toStep f) s as = some (t, os) := by
  induction as generalizing s with
  | nil => exact ⟨s, [], rfl⟩
  | cons a as ih =>
    obtain ⟨t, os, h⟩ := ih (f a s).1
    have hstep : toStep f s a = some ((f a s).1, (f a s).2) := rfl
    exact ⟨t, (f a s).2 ++ os, by rw [exec_cons_eq (toStep f) hstep, h, Option.map_some]⟩

/-! ### Pre- and postconditions -/

/-- From a state with `P` the operation leads to one with `Q`. -/
def Leads (P : σ → Prop) (f : Op σ ω) (Q : σ → Prop) : Prop := ∀ s, P s → Q (f s).1

section Conditions

variable {P Q R : σ → Prop} {f g : Op σ ω}

theorem Leads.seq (hf : Leads P f Q) (hg : Leads Q g R) : Leads P (seq f g) R :=
  fun s h => hg (f s).1 (hf s h)

theorem Leads.weaken {P' Q' : σ → Prop} (h : Leads P f Q) (hP : ∀ s, P' s → P s)
    (hQ : ∀ s, Q s → Q' s) : Leads P' f Q' := fun s hs => hQ (f s).1 (h s (hP s hs))

end Conditions

/-! ### Relations -/

/-- A relation that holds of doing nothing, and of two things done in a row. -/
structure Composable (R : σ → List ω → σ → Prop) : Prop where
  refl : ∀ s, R s [] s
  trans : ∀ s o t o' u, R s o t → R t o' u → R s (o ++ o') u

/-- The operation does what the relation says, from every state. -/
def Meets (R : σ → List ω → σ → Prop) (f : Op σ ω) : Prop := ∀ s, R s (f s).2 (f s).1

section Rules

variable {R : σ → List ω → σ → Prop}

theorem meets_skip (hR : Composable R) : Meets R skip := hR.refl

theorem meets_seq (hR : Composable R) {f g : Op σ ω} (hf : Meets R f) (hg : Meets R g) :
    Meets R (seq f g) := fun s => hR.trans _ _ _ _ _ (hf s) (hg (f s).1)

theorem meets_forEach (hR : Composable R) {f : α → Op σ ω} (hf : ∀ a, Meets R (f a))
    (as : List α) : Meets R (forEach f as) := by
  induction as with
  | nil => exact meets_skip hR
  | cons a as ih => exact meets_seq hR (hf a) ih

/-- **Run rule.** -/
theorem exec_meets (hR : Composable R) {f : α → Op σ ω} (hf : ∀ a, Meets R (f a)) {as : List α}
    {s t : σ} {os : List ω} (h : exec (toStep f) s as = some (t, os)) : R s os t := by
  have hrule : R s ([] ++ os) t := by
    refine exec_history (J := fun past m => R s past m) ?_ (hR.refl s) h
    intro past m a m' o hm hstep
    have hmeets := hf a m
    rw [Option.some.inj hstep] at hmeets
    exact hR.trans _ _ _ _ _ hm hmeets
  exact hrule

end Rules

/-- Everything shown satisfies a predicate. -/
def ShowsAll (P : ω → Prop) (_ : σ) (o : List ω) (_ : σ) : Prop := ∀ x ∈ o, P x

theorem showsAll_composable (P : ω → Prop) : Composable (ShowsAll P : σ → List ω → σ → Prop) := by
  constructor
  · exact fun _ x hx => absurd hx List.not_mem_nil
  · exact fun _ _ _ _ _ h h' => List.forall_mem_append.mpr ⟨h, h'⟩

/-! ### Abstract machines -/

/-- Let an abstract machine read outputs; `none` when it does not accept one. -/
def follow (accept : β → ω → Option β) : β → List ω → Option β
  | b, [] => some b
  | b, x :: xs => (accept b x).bind fun b' => follow accept b' xs

@[simp] theorem follow_nil (accept : β → ω → Option β) (b : β) : follow accept b [] = some b := rfl

theorem follow_cons_some {accept : β → ω → Option β} {b b' : β} {x : ω} (h : accept b x = some b')
    (xs : List ω) : follow accept b (x :: xs) = follow accept b' xs := by
  rw [follow, h, Option.bind_some]

theorem follow_singleton {accept : β → ω → Option β} {b b' : β} {x : ω}
    (h : accept b x = some b') : follow accept b [x] = some b' := follow_cons_some h []

theorem follow_append {accept : β → ω → Option β} {b b' : β} {xs : List ω}
    (h : follow accept b xs = some b') (ys : List ω) :
    follow accept b (xs ++ ys) = follow accept b' ys := by
  induction xs generalizing b with
  | nil =>
    cases h
    rfl
  | cons x xs ih =>
    obtain ⟨b₁, hx, hrest⟩ := Option.bind_eq_some_iff.mp h
    rw [List.cons_append, follow_cons_some hx, ih hrest]

/-- A machine that accepts two lists in a row accepts the second from where the first leads. -/
theorem follow_append_inv {accept : β → ω → Option β} {b c : β} {xs ys : List ω}
    (h : follow accept b (xs ++ ys) = some c) :
    ∃ b', follow accept b xs = some b' ∧ follow accept b' ys = some c := by
  induction xs generalizing b with
  | nil => exact ⟨b, rfl, h⟩
  | cons x xs ih =>
    obtain ⟨b₁, hx, hrest⟩ := Option.bind_eq_some_iff.mp h
    obtain ⟨b', hxs, hys⟩ := ih hrest
    exact ⟨b', by rw [follow_cons_some hx, hxs], hys⟩

/-- **Simulation.**  What one machine accepts, a coarser one accepts between the images. -/
theorem follow_simulated {γ : Type*} {accept : β → ω → Option β} {accept' : γ → ω → Option γ}
    {image : β → γ}
    (himage : ∀ b x b', accept b x = some b' → accept' (image b) x = some (image b'))
    {b b' : β} {xs : List ω} (h : follow accept b xs = some b') :
    follow accept' (image b) xs = some (image b') := by
  induction xs generalizing b with
  | nil =>
    cases h
    rfl
  | cons x xs ih =>
    obtain ⟨b₁, hx, hrest⟩ := Option.bind_eq_some_iff.mp h
    rw [follow_cons_some (himage b x b₁ hx), ih hrest]

/-- From a state with the invariant, the invariant is kept and the outputs take the abstract
machine from one abstraction to the next. -/
def Follows (accept : β → ω → Option β) (I : σ → Prop) (abstract : σ → β) (s : σ) (o : List ω)
    (t : σ) : Prop :=
  I s → I t ∧ follow accept (abstract s) o = some (abstract t)

theorem follows_composable (accept : β → ω → Option β) (I : σ → Prop) (abstract : σ → β) :
    Composable (Follows accept I abstract) := by
  constructor
  · exact fun s hs => ⟨hs, rfl⟩
  · intro s o t o' u h h' hs
    obtain ⟨ht, ho⟩ := h hs
    obtain ⟨hu, ho'⟩ := h' ht
    exact ⟨hu, by rw [follow_append ho, ho']⟩

end Operation
