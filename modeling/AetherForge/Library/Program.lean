import Mathlib.Data.List.Basic

/-!
# Effectful programs and their traces

A program over an effect signature (`E`, with `R e` the answers to the effect `e`) is either
done with a result or performs one effect and continues with whatever answer comes back.
One definition of a piece of code in this form serves three readings:

* **traces** — `Trace p evs q`: `p` performs the events `evs`, each effect with some answer,
  and `q` is what is left of it; the answers are unconstrained, so a statement about all
  traces holds in every environment;
* **residuals** — `Always allowed P p`: `P` holds of everything that can be left of `p`
  while all answers are `allowed`; this is what an invariant of a thread running `p` needs;
* **runs** — `runWith h p s`: the program run against a stateful handler.

Each has a rule for sequencing: `trace_bind`, `always_bind` and `runWith_bind`.
-/

namespace Interaction

/-- A program over the effects `E` with answers `R`. -/
inductive Prog (E : Type) (R : E → Type) (α : Type) : Type
  | ret (a : α) : Prog E R α
  | call (e : E) (k : R e → Prog E R α) : Prog E R α

variable {E : Type} {R : E → Type} {α β γ : Type}

namespace Prog

/-- Sequencing. -/
def bind : Prog E R α → (α → Prog E R β) → Prog E R β
  | .ret a, f => f a
  | .call e k, f => .call e fun r => (k r).bind f

instance : Monad (Prog E R) where
  pure := .ret
  bind := .bind

@[simp] theorem ret_bind (a : α) (f : α → Prog E R β) : (Prog.ret a >>= f) = f a := rfl

@[simp] theorem call_bind (e : E) (k : R e → Prog E R α) (f : α → Prog E R β) :
    (Prog.call e k >>= f) = .call e fun r => k r >>= f := rfl

end Prog

/-- The program that performs one effect and returns its answer. -/
def perform (e : E) : Prog E R (R e) := .call e .ret

/-- An effect together with the answer it got. -/
abbrev Event (E : Type) (R : E → Type) := (e : E) × R e

/-! ### Traces -/

/-- `p` performs the events in order and leaves `q`. -/
inductive Trace : Prog E R α → List (Event E R) → Prog E R α → Prop
  | nil (p : Prog E R α) : Trace p [] p
  | cons {e : E} {k : R e → Prog E R α} {r : R e} {evs : List (Event E R)} {q : Prog E R α} :
      Trace (k r) evs q → Trace (.call e k) (⟨e, r⟩ :: evs) q

@[simp] theorem trace_nil_iff {p q : Prog E R α} : Trace p [] q ↔ p = q := by
  constructor
  · intro h
    cases h
    rfl
  · rintro rfl
    exact .nil p

@[simp] theorem trace_ret_iff {a : α} {evs : List (Event E R)} {q : Prog E R α} :
    Trace (.ret a) evs q ↔ evs = [] ∧ q = .ret a := by
  constructor
  · intro h
    cases h
    exact ⟨rfl, rfl⟩
  · rintro ⟨rfl, rfl⟩
    exact .nil _

/-- A call either has not been performed yet, or is the first event. -/
theorem trace_call_iff {e : E} {k : R e → Prog E R α} {evs : List (Event E R)}
    {q : Prog E R α} :
    Trace (.call e k) evs q ↔
      (evs = [] ∧ q = .call e k) ∨ ∃ r evs', evs = ⟨e, r⟩ :: evs' ∧ Trace (k r) evs' q := by
  constructor
  · intro h
    cases h with
    | nil => exact .inl ⟨rfl, rfl⟩
    | cons h => exact .inr ⟨_, _, rfl, h⟩
  · rintro (⟨rfl, rfl⟩ | ⟨r, evs', rfl, h⟩)
    · exact .nil _
    · exact .cons h

/-- One more event extends a trace. -/
theorem Trace.snoc {p : Prog E R α} {evs : List (Event E R)} {e : E} {k : R e → Prog E R α}
    (h : Trace p evs (.call e k)) (r : R e) : Trace p (evs ++ [⟨e, r⟩]) (k r) := by
  generalize hq : Prog.call e k = q at h
  induction h with
  | nil p =>
    subst hq
    exact .cons (.nil _)
  | cons _ ih => exact .cons (ih hq)

/-- **Sequencing rule for traces.**  A trace of `p >>= f` is a trace inside `p`, or a
complete trace of `p` followed by a trace of the continuation. -/
theorem trace_bind {p : Prog E R α} {f : α → Prog E R β} {evs : List (Event E R)}
    {q : Prog E R β} (h : Trace (p >>= f) evs q) :
    (∃ p', Trace p evs p' ∧ q = p' >>= f) ∨
      ∃ evs₁ a evs₂, evs = evs₁ ++ evs₂ ∧ Trace p evs₁ (.ret a) ∧ Trace (f a) evs₂ q := by
  induction p generalizing evs with
  | ret a => exact .inr ⟨[], a, evs, rfl, .nil _, h⟩
  | call e k ih =>
    rw [Prog.call_bind, trace_call_iff] at h
    rcases h with ⟨rfl, rfl⟩ | ⟨r, evs', rfl, h⟩
    · exact .inl ⟨.call e k, .nil _, rfl⟩
    · rcases ih r h with ⟨p', hp', rfl⟩ | ⟨evs₁, a, evs₂, rfl, h₁, h₂⟩
      · exact .inl ⟨p', .cons hp', rfl⟩
      · exact .inr ⟨⟨e, r⟩ :: evs₁, a, evs₂, rfl, .cons h₁, h₂⟩

/-- A trace of `p >>= f` that reaches a result goes through a result of `p`. -/
theorem trace_bind_ret {p : Prog E R α} {f : α → Prog E R β} {evs : List (Event E R)} {b : β}
    (h : Trace (p >>= f) evs (.ret b)) :
    ∃ evs₁ a evs₂, evs = evs₁ ++ evs₂ ∧ Trace p evs₁ (.ret a) ∧ Trace (f a) evs₂ (.ret b) := by
  rcases trace_bind h with ⟨p', hp', hq⟩ | h
  · cases p' with
    | ret a => exact ⟨evs, a, [], by simp, hp', by simpa using hq.symm⟩
    | call e k => cases hq
  · exact h

/-- The events and the result of a program whose effects are answered by a strategy, which may
look at the events so far. -/
def play (answer : List (Event E R) → (e : E) → R e) :
    List (Event E R) → Prog E R α → List (Event E R) × α
  | _, .ret a => ([], a)
  | past, .call e k =>
    let r := answer past e
    let rest := play answer (past ++ [⟨e, r⟩]) (k r)
    (⟨e, r⟩ :: rest.1, rest.2)

/-- **A program whose effects are all answered returns.** -/
theorem trace_play (answer : List (Event E R) → (e : E) → R e) (past : List (Event E R))
    (p : Prog E R α) : Trace p (play answer past p).1 (.ret (play answer past p).2) := by
  induction p generalizing past with
  | ret a => exact .nil _
  | call e k ih => exact .cons (ih (answer past e) (past ++ [⟨e, answer past e⟩]))

/-- **Sequencing rule for plays**: the strategy sees what the first program did. -/
theorem play_bind (answer : List (Event E R) → (e : E) → R e) (past : List (Event E R))
    (p : Prog E R α) (f : α → Prog E R β) :
    play answer past (p >>= f) =
      ((play answer past p).1 ++
          (play answer (past ++ (play answer past p).1) (f (play answer past p).2)).1,
        (play answer (past ++ (play answer past p).1) (f (play answer past p).2)).2) := by
  induction p generalizing past with
  | ret a =>
    show play answer past (f a) = _
    simp only [play, List.append_nil, List.nil_append]
  | call e k ih =>
    show play answer past (.call e fun r => k r >>= f) = _
    simp only [play, ih, List.append_assoc, List.cons_append, List.nil_append]

/-- Every event of a play carries the strategy's answer. -/
theorem mem_play {answer : List (Event E R) → (e : E) → R e} {ev : Event E R}
    {past : List (Event E R)} {p : Prog E R α} (h : ev ∈ (play answer past p).1) :
    ∃ past', ev = ⟨ev.1, answer past' ev.1⟩ := by
  induction p generalizing past with
  | ret a => cases h
  | call e k ih =>
    rcases List.mem_cons.mp h with rfl | h
    · exact ⟨past, rfl⟩
    · exact ih _ h

/-! ### Residuals -/

/-- `P` holds of everything that can be left of `p` while all answers are `allowed`. -/
def Always (allowed : (e : E) → R e → Prop) (P : Prog E R α → Prop) (p : Prog E R α) : Prop :=
  ∀ evs q, (∀ ev ∈ evs, allowed ev.1 ev.2) → Trace p evs q → P q

variable {allowed : (e : E) → R e → Prop} {P : Prog E R α → Prop}

theorem Always.here {p : Prog E R α} (h : Always allowed P p) : P p :=
  h [] p (by simp) (.nil p)

/-- An allowed answer keeps the residual property. -/
theorem Always.answer {e : E} {k : R e → Prog E R α} (h : Always allowed P (.call e k))
    {r : R e} (hr : allowed e r) : Always allowed P (k r) := by
  intro evs q hevs ht
  refine h (⟨e, r⟩ :: evs) q ?_ (.cons ht)
  intro ev hev
  rcases List.mem_cons.mp hev with rfl | hev
  · exact hr
  · exact hevs ev hev

theorem always_ret {a : α} (h : P (.ret a)) : Always allowed P (.ret a) := by
  intro evs q _ ht
  rw [trace_ret_iff] at ht
  exact ht.2 ▸ h

theorem always_call {e : E} {k : R e → Prog E R α} (h : P (.call e k))
    (hk : ∀ r, allowed e r → Always allowed P (k r)) : Always allowed P (.call e k) := by
  intro evs q hevs ht
  rw [trace_call_iff] at ht
  rcases ht with ⟨rfl, rfl⟩ | ⟨r, evs', rfl, ht⟩
  · exact h
  · exact hk r (hevs _ List.mem_cons_self) evs' q
      (fun ev hev => hevs ev (List.mem_cons_of_mem _ hev)) ht

/-- **Sequencing rule for residuals.**  What is left of `p >>= f` is something left of `p`
with `f` still to come, or something left of `f a` for a result `a` of `p`. -/
theorem always_bind {p : Prog E R β} {f : β → Prog E R α} {S : β → Prop}
    (hp : Always allowed (fun q => P (q >>= f) ∧ ∀ a, q = .ret a → S a) p)
    (hf : ∀ a, S a → Always allowed P (f a)) : Always allowed P (p >>= f) := by
  intro evs q hevs ht
  rcases trace_bind ht with ⟨p', hp', rfl⟩ | ⟨evs₁, a, evs₂, rfl, h₁, h₂⟩
  · exact (hp evs p' hevs hp').1
  · refine hf a ?_ evs₂ q (fun ev hev => hevs ev (List.mem_append_right _ hev)) h₂
    exact (hp evs₁ _ (fun ev hev => hevs ev (List.mem_append_left _ hev)) h₁).2 a rfl

/-! ### Runs against a handler -/

/-- Run a program against a stateful handler; a handler that gives no answer aborts. -/
def runWith {σ : Type} (h : (e : E) → σ → Option (R e × σ)) : Prog E R α → σ → Option (α × σ)
  | .ret a, s => some (a, s)
  | .call e k, s =>
    match h e s with
    | none => none
    | some (r, s') => runWith h (k r) s'

section Handler

variable {σ : Type} {h : (e : E) → σ → Option (R e × σ)}

@[simp] theorem runWith_ret (a : α) (s : σ) :
    runWith h (Prog.ret a : Prog E R α) s = some (a, s) := rfl

theorem runWith_call {e : E} {k : R e → Prog E R α} {s s' : σ} {r : R e}
    (he : h e s = some (r, s')) : runWith h (.call e k) s = runWith h (k r) s' := by
  simp only [runWith, he]

theorem runWith_call_none {e : E} {k : R e → Prog E R α} {s : σ} (he : h e s = none) :
    runWith h (.call e k) s = none := by
  simp only [runWith, he]

/-- **Sequencing rule for runs.** -/
theorem runWith_bind (p : Prog E R α) (f : α → Prog E R β) (s : σ) :
    runWith h (p >>= f) s = (runWith h p s).bind fun r => runWith h (f r.1) r.2 := by
  induction p generalizing s with
  | ret a => rfl
  | call e k ih =>
    show runWith h (.call e fun r => k r >>= f) s = _
    cases he : h e s with
    | none =>
      rw [runWith_call_none he, runWith_call_none he]
      rfl
    | some p => rw [runWith_call he, runWith_call he, ih]

end Handler

end Interaction
