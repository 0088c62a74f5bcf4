import Mathlib.Data.List.Basic

/-!
# Labelled step functions with outputs

A system is a partial step function: in a state, a label is either not enabled or leads to
the next state and emits a list of outputs.  Nondeterminism (scheduling, answers of the
environment) lives in the labels, so a run is determined by its list of labels and can be
evaluated.

* `exec` — run a list of labels, collecting the outputs in order;
* `exec_trans` — runs are put end to end;
* `exec_invariant`, `exec_invariant_along` — an invariant kept by every step (every step
  that meets a condition) is kept by every run;
* `exec_history` — the same for an invariant that ties the outputs so far to the state;
* `exec_foldl` — the same for a quantity computed from the labels;
* `exec_outputs` — a property of each step's outputs is a property of a run's outputs;
* `exec_pairwise` — what each output promises about all later ones;
* `exec_each` — what is known of each output and of all that was shown before it;
* `exec_potential` — a potential bounds how many steps of a kind are taken until something is shown;
* `exec_guarded` — a conditioned run is a run of the steps that meet the condition;
* `along_iff` — a property holds throughout a run exactly if every step meets the condition under
  which one step keeps it.
-/

namespace Transition

variable {σ α ω : Type*}

/-- A step function: the next state and the outputs, when the label is enabled. -/
abbrev Step (σ α ω : Type*) := σ → α → Option (σ × List ω)

/-- Run a list of labels. -/
def exec (step : Step σ α ω) : σ → List α → Option (σ × List ω)
  | s, [] => some (s, [])
  | s, a :: as =>
    match step s a with
    | none => none
    | some (s', o) => (exec step s' as).map fun p => (p.1, o ++ p.2)

/-- Every step of the run from `s` meets the condition `P` (on the state before the step
and the label). -/
def Along (step : Step σ α ω) (P : σ → α → Prop) : σ → List α → Prop
  | _, [] => True
  | s, a :: as => P s a ∧ ∀ s' o, step s a = some (s', o) → Along step P s' as

theorem along_cons_none {step : Step σ α ω} {P : σ → α → Prop} {s : σ} {a : α}
    (h : step s a = none) (as : List α) : Along step P s (a :: as) ↔ P s a := by
  refine ⟨fun hP => hP.1, fun hP => ⟨hP, fun s' o hs => ?_⟩⟩
  rw [h] at hs
  cases hs

theorem along_cons_some {step : Step σ α ω} {P : σ → α → Prop} {s s' : σ} {a : α} {o : List ω}
    (h : step s a = some (s', o)) (as : List α) :
    Along step P s (a :: as) ↔ P s a ∧ Along step P s' as := by
  refine ⟨fun hP => ⟨hP.1, hP.2 s' o h⟩, fun hP => ⟨hP.1, fun t o' hs => ?_⟩⟩
  rw [h] at hs
  cases hs
  exact hP.2

/-- Whether a run meets a condition is decided step by step. -/
instance decidableAlong (step : Step σ α ω) (P : σ → α → Prop) [∀ s a, Decidable (P s a)] :
    ∀ s as, Decidable (Along step P s as)
  | _, [] => isTrue trivial
  | s, a :: as =>
    match hs : step s a with
    | none => decidable_of_iff _ (along_cons_none hs as).symm
    | some (s', _) =>
      have := decidableAlong step P s' as
      decidable_of_iff _ (along_cons_some hs as).symm

/-- The states that runs from `s₀` reach. -/
def Reachable (step : Step σ α ω) (s₀ s : σ) : Prop :=
  ∃ as os, exec step s₀ as = some (s, os)

@[simp] theorem exec_nil (step : Step σ α ω) (s : σ) : exec step s [] = some (s, []) := rfl

theorem exec_cons_eq (step : Step σ α ω) {s s' : σ} {a : α} {o : List ω}
    (h : step s a = some (s', o)) (as : List α) :
    exec step s (a :: as) = (exec step s' as).map fun p => (p.1, o ++ p.2) := by
  simp only [exec, h]

/-- A step is a run. -/
theorem exec_singleton (step : Step σ α ω) {s s' : σ} {a : α} {o : List ω}
    (h : step s a = some (s', o)) : exec step s [a] = some (s', o) := by
  rw [exec_cons_eq step h]
  simp

/-- A run that starts with a label takes that step first. -/
theorem exec_cons_inv {step : Step σ α ω} {s t : σ} {a : α} {as : List α} {os : List ω}
    (h : exec step s (a :: as) = some (t, os)) :
    ∃ s' o os', step s a = some (s', o) ∧ exec step s' as = some (t, os') ∧ os = o ++ os' := by
  simp only [exec] at h
  cases hs : step s a with
  | none => rw [hs] at h; cases h
  | some p =>
    obtain ⟨s', o⟩ := p
    rw [hs] at h
    simp only [Option.map_eq_some_iff] at h
    obtain ⟨⟨t', os'⟩, hrun, heq⟩ := h
    cases heq
    exact ⟨s', o, os', rfl, hrun, rfl⟩

/-- Runs compose. -/
theorem exec_trans {step : Step σ α ω} {as bs : List α} {s m t : σ} {os₁ os₂ : List ω}
    (h₁ : exec step s as = some (m, os₁)) (h₂ : exec step m bs = some (t, os₂)) :
    exec step s (as ++ bs) = some (t, os₁ ++ os₂) := by
  induction as generalizing s os₁ with
  | nil =>
    cases h₁
    exact h₂
  | cons a as ih =>
    obtain ⟨s', o, os', hstep, hrest, hos⟩ := exec_cons_inv h₁
    rw [List.cons_append, exec_cons_eq step hstep, ih hrest, hos]
    simp only [Option.map_some, List.append_assoc]

/-- A run of two parts passes through the state between them. -/
theorem exec_append_inv {step : Step σ α ω} {as bs : List α} {s t : σ} {os : List ω}
    (h : exec step s (as ++ bs) = some (t, os)) :
    ∃ m os₁ os₂, exec step s as = some (m, os₁) ∧ exec step m bs = some (t, os₂) ∧
      os = os₁ ++ os₂ := by
  induction as generalizing s os with
  | nil => exact ⟨s, [], os, rfl, h, rfl⟩
  | cons a as ih =>
    obtain ⟨s', o, os', hstep, hrest, rfl⟩ := exec_cons_inv h
    obtain ⟨m, os₁, os₂, hfirst, hsecond, rfl⟩ := ih hrest
    refine ⟨m, o ++ os₁, os₂, ?_, hsecond, (List.append_assoc o os₁ os₂).symm⟩
    rw [exec_cons_eq step hstep, hfirst, Option.map_some]

theorem Reachable.refl (step : Step σ α ω) (s : σ) : Reachable step s s := ⟨[], [], rfl⟩

theorem Reachable.step {step : Step σ α ω} {s₀ s s' : σ} {a : α} {o : List ω}
    (hr : Reachable step s₀ s) (h : step s a = some (s', o)) : Reachable step s₀ s' := by
  obtain ⟨as, os, hrun⟩ := hr
  exact ⟨as ++ [a], os ++ o, exec_trans hrun (exec_singleton step h)⟩

theorem Reachable.exec {step : Step σ α ω} {s₀ s t : σ} {as : List α} {os : List ω}
    (hr : Reachable step s₀ s) (h : exec step s as = some (t, os)) : Reachable step s₀ t := by
  obtain ⟨as₀, os₀, hrun⟩ := hr
  exact ⟨as₀ ++ as, os₀ ++ os, exec_trans hrun h⟩

/-! ### The invariant rules -/

/-- **Invariant rule along conditioned runs.**  What every step that meets `P` keeps, every
run whose steps all meet `P` keeps; and what it says of each step's outputs holds of all
outputs. -/
theorem exec_invariant_along {step : Step σ α ω} {I : σ → Prop} {P : σ → α → Prop}
    {Q : ω → Prop}
    (hstep : ∀ s a s' o, I s → P s a → step s a = some (s', o) → I s' ∧ ∀ x ∈ o, Q x) :
    ∀ {as : List α} {s t : σ} {os : List ω}, I s → Along step P s as →
      exec step s as = some (t, os) → I t ∧ ∀ x ∈ os, Q x := by
  intro as
  induction as with
  | nil =>
    intro s t os hI _ h
    cases h
    exact ⟨hI, by simp⟩
  | cons a as ih =>
    intro s t os hI hP h
    obtain ⟨s', o, os', hs, hrest, hos⟩ := exec_cons_inv h
    obtain ⟨hI', ho⟩ := hstep s a s' o hI hP.1 hs
    obtain ⟨hIt, hos'⟩ := ih hI' (hP.2 s' o hs) hrest
    refine ⟨hIt, ?_⟩
    intro x hx
    rw [hos, List.mem_append] at hx
    exact hx.elim (ho x) (hos' x)

/-- A condition that every label of a run meets in every state. -/
theorem along_of_forall {step : Step σ α ω} {P : σ → α → Prop} {as : List α}
    (h : ∀ a ∈ as, ∀ s, P s a) (s : σ) : Along step P s as := by
  induction as generalizing s with
  | nil => trivial
  | cons a as ih =>
    obtain ⟨ha, has⟩ := List.forall_mem_cons.mp h
    exact ⟨ha s, fun s' _ _ => ih has s'⟩

/-- **Invariant rule with outputs.** -/
theorem exec_outputs {step : Step σ α ω} {I : σ → Prop} {Q : ω → Prop}
    (hstep : ∀ s a s' o, I s → step s a = some (s', o) → I s' ∧ ∀ x ∈ o, Q x)
    {as : List α} {s t : σ} {os : List ω} (hI : I s) (h : exec step s as = some (t, os)) :
    I t ∧ ∀ x ∈ os, Q x :=
  exec_invariant_along (P := fun _ _ => True) (fun s a s' o hs _ he => hstep s a s' o hs he)
    hI (along_of_forall (fun _ _ _ => trivial) s) h

/-- **Invariant rule.** -/
theorem exec_invariant {step : Step σ α ω} {I : σ → Prop}
    (hstep : ∀ s a s' o, I s → step s a = some (s', o) → I s')
    {as : List α} {s t : σ} {os : List ω} (hI : I s) (h : exec step s as = some (t, os)) :
    I t :=
  (exec_outputs (Q := fun _ => True)
    (fun s a s' o hs he => ⟨hstep s a s' o hs he, fun _ _ => trivial⟩) hI h).1

/-- **History rule.**  An invariant between the outputs so far and the state, kept by every
step, holds after every run. -/
theorem exec_history {step : Step σ α ω} {J : List ω → σ → Prop}
    (hstep : ∀ h s a s' o, J h s → step s a = some (s', o) → J (h ++ o) s') :
    ∀ {as : List α} {h₀ : List ω} {s t : σ} {os : List ω}, J h₀ s →
      exec step s as = some (t, os) → J (h₀ ++ os) t := by
  intro as
  induction as with
  | nil =>
    intro h₀ s t os hJ h
    cases h
    simpa using hJ
  | cons a as ih =>
    intro h₀ s t os hJ h
    obtain ⟨s', o, os', hs, hrest, hos⟩ := exec_cons_inv h
    have hnext := ih (hstep h₀ s a s' o hJ hs) hrest
    rwa [hos, ← List.append_assoc]

/-- **Tally rule.**  A quantity computed from the labels, tied to the state by an invariant. -/
theorem exec_foldl {β : Type*} {step : Step σ α ω} {f : β → α → β} {J : β → σ → Prop}
    (hstep : ∀ b s a s' o, J b s → step s a = some (s', o) → J (f b a) s') :
    ∀ {as : List α} {b : β} {s t : σ} {os : List ω}, J b s → exec step s as = some (t, os) →
      J (as.foldl f b) t := by
  intro as
  induction as with
  | nil =>
    intro b s t os hJ h
    cases h
    exact hJ
  | cons a as ih =>
    intro b s t os hJ h
    obtain ⟨s', o, os', hs, hrest, _⟩ := exec_cons_inv h
    exact ih (hstep b s a s' o hJ hs) hrest

/-- **Promise rule.**  Each output `x` promises `R x` of every later output.  `G x s` says that
the state `s` honours the promise of `x`: an output is emitted into such a state, every step
keeps it, and emits only what was promised. -/
theorem exec_pairwise {step : Step σ α ω} {I : σ → Prop} {G : ω → σ → Prop} {R : ω → ω → Prop}
    (hI : ∀ s a s' o, I s → step s a = some (s', o) → I s')
    (hkeep : ∀ x s a s' o, I s → G x s → step s a = some (s', o) → G x s' ∧ ∀ y ∈ o, R x y)
    (hout : ∀ s a s' o, I s → step s a = some (s', o) → o.Pairwise R ∧ ∀ x ∈ o, G x s')
    {as : List α} {s t : σ} {os : List ω} (hs : I s) (h : exec step s as = some (t, os)) :
    os.Pairwise R := by
  have hrule : (I t ∧ os.Pairwise R) ∧ ∀ x ∈ os, G x t := by
    refine exec_history (J := fun past s => (I s ∧ past.Pairwise R) ∧ ∀ x ∈ past, G x s)
      ?_ ⟨⟨hs, .nil⟩, by simp⟩ h
    rintro past s a s' o ⟨⟨hIs, hpast⟩, hG⟩ hstep
    obtain ⟨ho, hGo⟩ := hout s a s' o hIs hstep
    refine ⟨⟨hI s a s' o hIs hstep, List.pairwise_append.mpr ⟨hpast, ho, ?_⟩⟩, ?_⟩
    · intro x hx y hy
      exact (hkeep x s a s' o hIs (hG x hx) hstep).2 y hy
    · intro x hx
      rcases List.mem_append.mp hx with hx | hx
      · exact (hkeep x s a s' o hIs (hG x hx) hstep).1
      · exact hGo x hx
  exact hrule.1.2

/-- **Checkpoint rule.**  An invariant between the outputs so far and the state is kept by every
step, and shows, for each output of a step, how it fits the outputs before it. -/
theorem exec_each {step : Step σ α ω} {J : List ω → σ → Prop} {Q : List ω → ω → Prop}
    (hstep : ∀ past s a s' o, J past s → step s a = some (s', o) →
      J (past ++ o) s' ∧ ∀ o₁ x o₂, o = o₁ ++ x :: o₂ → Q (past ++ o₁) x)
    {as : List α} {s t : σ} {os : List ω} (hs : J [] s) (h : exec step s as = some (t, os)) :
    ∀ pre x post, os = pre ++ x :: post → Q pre x := by
  have hrule : J ([] ++ os) t ∧ ∀ pre x post, [] ++ os = pre ++ x :: post → Q pre x := by
    refine exec_history (J := fun past s => J past s ∧
      ∀ pre x post, past = pre ++ x :: post → Q pre x) ?_ ⟨hs, by simp⟩ h
    rintro past s a s' o ⟨hJ, hpast⟩ hst
    obtain ⟨hJ', ho⟩ := hstep past s a s' o hJ hst
    refine ⟨hJ', fun pre x post heq => ?_⟩
    rcases List.append_eq_append_iff.mp heq with ⟨o₁, rfl, hrest⟩ | ⟨rest, hbefore, hrest⟩
    · exact ho o₁ x post hrest
    · cases rest with
      | nil =>
        rw [List.append_nil] at hbefore
        have hx := ho [] x post hrest.symm
        rwa [List.append_nil, hbefore] at hx
      | cons y rest =>
        cases hrest
        exact hpast pre x rest hbefore
  exact hrule.2

/-! ### Exact conditions -/

/-- **Exactness rule.**  A property that a step keeps exactly if it meets `P` holds after every
prefix of a run exactly if every step of the run meets `P`. -/
theorem along_iff {step : Step σ α ω} {I A : σ → Prop} {P : σ → α → Prop}
    (hI : ∀ s a s' o, I s → step s a = some (s', o) → I s')
    (hA : ∀ s a s' o, I s → A s → step s a = some (s', o) → (A s' ↔ P s a))
    {as : List α} {s t : σ} {os : List ω} (hs : I s) (hAs : A s)
    (hrun : exec step s as = some (t, os)) :
    (∀ pre m past, pre <+: as → exec step s pre = some (m, past) → A m) ↔ Along step P s as := by
  induction as generalizing s os with
  | nil =>
    refine ⟨fun _ => trivial, fun _ pre m past hpre h => ?_⟩
    rw [List.prefix_nil.mp hpre] at h
    cases h
    exact hAs
  | cons a as ih =>
    obtain ⟨s', o, os', hstep, hrest, -⟩ := exec_cons_inv hrun
    rw [along_cons_some hstep, ← hA s a s' o hs hAs hstep]
    constructor
    · intro hall
      have hA' : A s' := hall [a] s' o ⟨as, rfl⟩ (exec_singleton step hstep)
      refine ⟨hA', (ih (hI s a s' o hs hstep) hA' hrest).mp fun pre m past hpre h => ?_⟩
      refine hall (a :: pre) m (o ++ past) (List.cons_prefix_cons.mpr ⟨rfl, hpre⟩) ?_
      rw [exec_cons_eq step hstep, h, Option.map_some]
    · rintro ⟨hA', halong⟩ pre m past hpre h
      cases pre with
      | nil =>
        cases h
        exact hAs
      | cons b pre =>
        -- the first step of the prefix is that of the run
        obtain ⟨rfl, hprefix⟩ := List.cons_prefix_cons.mp hpre
        obtain ⟨s₁, o₁, past', hstep₁, hafter, -⟩ := exec_cons_inv h
        rw [hstep, Option.some.injEq, Prod.mk.injEq] at hstep₁
        obtain ⟨rfl, -⟩ := hstep₁
        exact (ih (hI s b s' o hs hstep) hA' hrest).mpr halong pre m past' hprefix hafter

/-! ### Potentials -/

/-- How many steps of the run from `s` are of a kind. -/
def countSteps (step : Step σ α ω) (kind : σ → α → Bool) : σ → List α → ℕ
  | _, [] => 0
  | s, a :: as =>
    match step s a with
    | none => 0
    | some (s', _) => (kind s a).toNat + countSteps step kind s' as

theorem countSteps_cons_some {step : Step σ α ω} {kind : σ → α → Bool} {s s' : σ} {a : α}
    {o : List ω} (h : step s a = some (s', o)) (as : List α) :
    countSteps step kind s (a :: as) = (kind s a).toNat + countSteps step kind s' as := by
  simp only [countSteps, h]

/-- **Potential rule.**  Each step shows what is waited for, or keeps the invariant and does not
raise the potential; a step of the kind lowers it.  Until it is shown, no more steps of the kind are
taken than the potential allows. -/
theorem exec_potential {step : Step σ α ω} {kind : σ → α → Bool} {I : σ → Prop} {L : α → Prop}
    {D : ω → Prop} {potential : σ → ℕ}
    (hstep : ∀ s a s' o, I s → L a → step s a = some (s', o) →
      (∃ x ∈ o, D x) ∨ (I s' ∧ (kind s a).toNat + potential s' ≤ potential s))
    {as : List α} (has : ∀ a ∈ as, L a) {s t : σ} {os : List ω} (hs : I s)
    (h : exec step s as = some (t, os)) :
    (∃ x ∈ os, D x) ∨ (I t ∧ countSteps step kind s as + potential t ≤ potential s) := by
  induction as generalizing s os with
  | nil =>
    cases h
    exact .inr ⟨hs, Nat.le_of_eq (Nat.zero_add _)⟩
  | cons a as ih =>
    obtain ⟨s', o, os', hs', hrest, rfl⟩ := exec_cons_inv h
    rcases hstep s a s' o hs (has a List.mem_cons_self) hs' with ⟨x, hx, hD⟩ | ⟨hI, hspent⟩
    · exact .inl ⟨x, List.mem_append_left _ hx, hD⟩
    rcases ih (fun b hb => has b (.tail _ hb)) hI hrest with ⟨x, hx, hD⟩ | ⟨hI', hspent'⟩
    · exact .inl ⟨x, List.mem_append_right _ hx, hD⟩
    · refine .inr ⟨hI', ?_⟩
      rw [countSteps_cons_some hs']
      omega

/-! ### Conditioned runs -/

open Classical in
/-- Only the steps that meet a condition. -/
noncomputable def guarded (P : σ → α → Prop) (step : Step σ α ω) : Step σ α ω := fun s a =>
  if P s a then step s a else none

theorem guarded_some {P : σ → α → Prop} {step : Step σ α ω} {s : σ} {a : α} {p : σ × List ω} :
    guarded P step s a = some p ↔ P s a ∧ step s a = some p := Option.ite_none_right_eq_some

/-- **A conditioned run** is a run of the steps that meet the condition. -/
theorem exec_guarded {P : σ → α → Prop} {step : Step σ α ω} {as : List α} {s : σ}
    (h : Along step P s as) : exec (guarded P step) s as = exec step s as := by
  induction as generalizing s with
  | nil => rfl
  | cons a as ih =>
    obtain ⟨ha, has⟩ := h
    have hstep : guarded P step s a = step s a := if_pos ha
    simp only [exec, hstep]
    cases hs : step s a with
    | none => rfl
    | some p =>
      simp only
      rw [ih (has p.1 p.2 hs)]

end Transition
