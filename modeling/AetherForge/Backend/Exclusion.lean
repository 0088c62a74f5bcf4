import AetherForge.Backend.Lifecycle

/-!
# One live goroutine

At most one goroutine of a connection's orchestrator executes `run`, whatever the order of
calls and the interleaving.  The argument is the invariant `OneLive`: a goroutine that has not
yet passed its cleanup is the one in the `cur` slot or the one the caller has just taken out of
it; it is the youngest; and while the caller starts a new one there is none.

* `step_oneLive` — every step of the system keeps the invariant;
* `OneLive.unique` — two live goroutines are the same;
* `OneLive.none_live_of_wait` — when the caller's wait is over, nothing is live.
-/

namespace AetherForge

open Go Interaction Transition

/-! ### Where a thread stands -/

/-- The goroutine may still hand messages over or clear `cur`. -/
def GenerationPc.live : GenerationPc → Bool
  | .running _ | .testing | .clearing => true
  | _ => false

def GenerationPc.holds : GenerationPc → Bool
  | .testing | .clearing | .unlocking => true
  | _ => false

def Caller.holds : Caller → Bool
  | .retire _ .read | .retire _ (.clear _) | .retire _ (.unlock _) => true
  | .install _ | .installUnlock _ => true
  | .cancelTest _ | .cancelFire _ | .cancelUnlock _ => true
  | _ => false

/-- What the caller read from `cur` and is about to clear. -/
def Caller.reads : Caller → Option (Option ℕ)
  | .retire _ (.clear old) => some old
  | _ => none

/-- The generation that the caller took out of `cur` and has not yet seen finished. -/
def Caller.took : Caller → Option ℕ
  | .retire _ (.unlock old) => old
  | .retire _ (.cancel old) | .retire _ (.wait old) => some old
  | _ => none

/-- The caller has cleared `cur` and not yet filled it. -/
def Caller.emptied : Caller → Bool
  | .retire _ (.unlock _) | .retire _ (.cancel _) | .retire _ (.wait _) => true
  | .create _ | .installLock _ | .install _ => true
  | _ => false

/-- The generation that the caller has created and not yet started. -/
def Caller.starting : Caller → Option ℕ
  | .installLock g | .install g | .installUnlock g | .launch g => some g
  | _ => none

/-- The caller has seen every older generation finished, and starts a new one. -/
def Caller.vacant : Caller → Bool
  | .create _ | .installLock _ | .install _ | .installUnlock _ | .launch _ => true
  | _ => false

/-- The generation that the caller has put into `cur` and not yet started. -/
def Caller.installed : Caller → Option ℕ
  | .installUnlock g | .launch g => some g
  | _ => none

theorem Caller.holds_of_reads {c : Caller} {old : Option ℕ} (h : c.reads = some old) :
    c.holds = true := by
  unfold Caller.reads at h
  split at h <;> trivial

theorem Caller.vacant_of_installed {c : Caller} {g : ℕ} (h : c.installed = some g) :
    c.vacant = true := by
  unfold Caller.installed at h
  split at h <;> trivial

theorem Caller.vacant_of_starting {c : Caller} {g : ℕ} (h : c.starting = some g) :
    c.vacant = true := by
  unfold Caller.starting at h
  split at h <;> trivial

/-! ### The goroutines of a state -/

/-- Where the goroutine of a generation stands. -/
def pcAt (gens : List Generation) (i : ℕ) : Option GenerationPc := gens[i]?.map (·.pc)

theorem pcAt_of_get {gens : List Generation} {i : ℕ} {g : Generation} (h : gens[i]? = some g) :
    pcAt gens i = some g.pc := by
  rw [pcAt, h]
  rfl

theorem pcAt_lt {gens : List Generation} {i : ℕ} {pc : GenerationPc}
    (h : pcAt gens i = some pc) : i < gens.length := by
  obtain ⟨g, hg, _⟩ := Option.map_eq_some_iff.mp h
  exact (List.getElem?_eq_some_iff.mp hg).1

theorem pcAt_append (gens : List Generation) (g : Generation) (i : ℕ) :
    pcAt (gens ++ [g]) i = if i = gens.length then some g.pc else pcAt gens i := by
  rcases Nat.lt_trichotomy i gens.length with hlt | rfl | hgt
  · rw [pcAt, List.getElem?_append_left hlt, if_neg (Nat.ne_of_lt hlt), pcAt]
  · rw [pcAt, List.getElem?_concat_length, if_pos rfl]
    rfl
  · have hlen : (gens ++ [g]).length ≤ i := by
      rw [List.length_append, List.length_singleton]
      exact hgt
    rw [pcAt, List.getElem?_eq_none hlen, if_neg (Nat.ne_of_gt hgt), pcAt,
      List.getElem?_eq_none (Nat.le_of_lt hgt)]

theorem pcAt_map_cancelled (gens : List Generation) (i : ℕ) :
    pcAt (gens.map fun g => { g with cancelled := true }) i = pcAt gens i := by
  rw [pcAt, pcAt, List.getElem?_map, Option.map_map]
  rfl

namespace System

variable (s : System) (i : ℕ) (f : Generation → Generation) (pc : GenerationPc)

@[simp] theorem update_length : (s.update i f).gens.length = s.gens.length :=
  List.length_modify _ _ _

@[simp] theorem setPc_length : (s.setPc i pc).gens.length = s.gens.length :=
  s.update_length i _

@[simp] theorem cancelContext_length :
    (s.cancelContext i).gens.length = s.gens.length := s.update_length i _

theorem update_get (j : ℕ) :
    (s.update i f).gens[j]? = if i = j then s.gens[j]?.map f else s.gens[j]? := by
  simp only [update, List.getElem?_modify]
  split <;> cases s.gens[j]? <;> rfl

theorem pcAt_setPc (j : ℕ) :
    pcAt (s.setPc i pc).gens j =
      if i = j then (pcAt s.gens j).map (fun _ => pc) else pcAt s.gens j := by
  rw [pcAt, setPc, update_get, pcAt]
  split <;> cases s.gens[j]? <;> rfl

theorem pcAt_cancelContext (j : ℕ) :
    pcAt (s.cancelContext i).gens j = pcAt s.gens j := by
  rw [pcAt, cancelContext, update_get, pcAt]
  split <;> cases s.gens[j]? <;> rfl

theorem pcAt_of_isDone {s : System} {i : ℕ} (h : s.isDone i = true) :
    pcAt s.gens i = some .exited := by
  unfold isDone at h
  split at h
  · rename_i heq
    exact pcAt_of_get heq
  · cases h

end System

/-! ### The invariant -/

/-- At most one goroutine is live, and it is where the caller will look for it. -/
structure OneLive (s : System) : Prop where
  goroutine_mu : ∀ i pc, pcAt s.gens i = some pc → pc.holds = true → s.mu = some (.goroutine i)
  caller_mu : s.caller.holds = true → s.mu = some .caller
  clearing : ∀ i, pcAt s.gens i = some .clearing → s.cur = some i
  reads : ∀ old, s.caller.reads = some old → s.cur = old
  owner : ∀ i pc, pcAt s.gens i = some pc → pc.live = true →
    s.cur = some i ∨ s.caller.took = some i
  emptied : s.caller.emptied = true → s.cur = none
  vacant : s.caller.vacant = true → ∀ i pc, pcAt s.gens i = some pc → pc.live = false
  youngest : ∀ i pc, pcAt s.gens i = some pc → pc.live = true → i + 1 = s.gens.length
  starting : ∀ g, s.caller.starting = some g →
    g + 1 = s.gens.length ∧ pcAt s.gens g = some .created
  installed : ∀ g, s.caller.installed = some g → s.cur = some g

theorem oneLive_start (store : Manifest) : OneLive (.start store) := by
  constructor <;> simp [System.start, pcAt, Caller.holds, Caller.reads, Caller.emptied,
    Caller.vacant, Caller.starting, Caller.installed]

namespace OneLive

variable {s s' : System} {i : ℕ} {old pc : GenerationPc} {out : List Action}

/-- A goroutine moves on.  Who else holds `mu` keeps it, and `cur` stays. -/
theorem goroutineMoves (hI : OneLive s) (hat : pcAt s.gens i = some old)
    (hpcs : ∀ j, pcAt s'.gens j =
      if i = j then (pcAt s.gens j).map (fun _ => pc) else pcAt s.gens j)
    (hlen : s'.gens.length = s.gens.length) (hcaller : s'.caller = s.caller)
    (hcur : s'.cur = s.cur) (hmu : ∀ x, s.mu = some x → x ≠ .goroutine i → s'.mu = some x)
    (hnew : old ≠ .created) (hlive : pc.live = true → old.live = true)
    (hholds : pc.holds = true → s'.mu = some (.goroutine i))
    (hclears : pc = .clearing → s.cur = some i) : OneLive s' := by
  -- a goroutine after the step: the one that moved, or another
  have hcases : ∀ j q, pcAt s'.gens j = some q →
      (j = i ∧ q = pc) ∨ (j ≠ i ∧ pcAt s.gens j = some q) := by
    intro j q hj
    rw [hpcs] at hj
    split at hj
    · rename_i heq
      subst heq
      rw [hat] at hj
      exact .inl ⟨rfl, (Option.some.inj hj).symm⟩
    · rename_i hne
      exact .inr ⟨fun heq => hne heq.symm, hj⟩
  constructor
  · intro j q hj hq
    rcases hcases j q hj with ⟨rfl, rfl⟩ | ⟨hne, hj⟩
    · exact hholds hq
    · exact hmu _ (hI.goroutine_mu j q hj hq) (by simpa using hne)
  · intro hc
    exact hmu _ (hI.caller_mu (hcaller ▸ hc)) nofun
  · intro j hj
    rw [hcur]
    rcases hcases j _ hj with ⟨rfl, hq⟩ | ⟨_, hj⟩
    · exact hclears hq.symm
    · exact hI.clearing j hj
  · intro x hx
    rw [hcur]
    exact hI.reads x (hcaller ▸ hx)
  · intro j q hj hq
    rw [hcur, hcaller]
    rcases hcases j q hj with ⟨rfl, rfl⟩ | ⟨_, hj⟩
    · exact hI.owner j old hat (hlive hq)
    · exact hI.owner j q hj hq
  · intro hc
    rw [hcur]
    exact hI.emptied (hcaller ▸ hc)
  · intro hc j q hj
    have hnone := hI.vacant (hcaller ▸ hc)
    rcases hcases j q hj with ⟨rfl, rfl⟩ | ⟨_, hj⟩
    · have hold := hnone j old hat
      cases hq : q.live with
      | false => rfl
      | true => rw [hlive hq] at hold; cases hold
    · exact hnone j q hj
  · intro j q hj hq
    rw [hlen]
    rcases hcases j q hj with ⟨rfl, rfl⟩ | ⟨_, hj⟩
    · exact hI.youngest j old hat (hlive hq)
    · exact hI.youngest j q hj hq
  · intro g hg
    obtain ⟨hlast, hcreated⟩ := hI.starting g (hcaller ▸ hg)
    refine ⟨hlen ▸ hlast, ?_⟩
    rw [hpcs, if_neg]
    · exact hcreated
    · rintro rfl
      rw [hat] at hcreated
      exact hnew (Option.some.inj hcreated)
  · intro g hg
    rw [hcur]
    exact hI.installed g (hcaller ▸ hg)

/-- A goroutine moves on without touching `mu` and `cur`. -/
theorem move (hI : OneLive s) (hat : pcAt s.gens i = some old) (hnew : old ≠ .created)
    (hlive : pc.live = true → old.live = true)
    (hholds : pc.holds = true → s.mu = some (.goroutine i))
    (hclears : pc = .clearing → s.cur = some i) : OneLive (s.setPc i pc) :=
  hI.goroutineMoves hat (s.pcAt_setPc i pc) (s.setPc_length i pc) rfl rfl (fun _ hx _ => hx) hnew
    hlive hholds hclears

/-- A goroutine takes the free mutex for its cleanup. -/
theorem acquire (hI : OneLive s) (hmu : s.mu = none) (hat : pcAt s.gens i = some old)
    (hlive : old.live = true) :
    OneLive { s.setPc i .testing with mu := some (.goroutine i) } := by
  refine hI.goroutineMoves hat (s.pcAt_setPc i .testing) (s.setPc_length i _) rfl rfl ?_ ?_
    (fun _ => hlive) (fun _ => rfl) nofun
  · rw [hmu]
    nofun
  · rintro rfl
    cases hlive

/-- A goroutine gives the mutex back. -/
theorem release (hI : OneLive s) (hat : pcAt s.gens i = some .unlocking) :
    OneLive { s.setPc i .cancelling with mu := none } := by
  have hmu := hI.goroutine_mu i _ hat rfl
  refine hI.goroutineMoves hat (s.pcAt_setPc i .cancelling) (s.setPc_length i _) rfl rfl ?_ nofun
    nofun nofun nofun
  intro x hx hne
  rw [hmu] at hx
  exact absurd (Option.some.inj hx).symm hne

/-- What was in `cur` is not live, and the caller does not rely on it. -/
theorem dropCur (hI : OneLive s) (hcur : s.cur = some i) (hat : pcAt s.gens i = some old)
    (hlive : old.live = false) (hreads : s.caller.reads = none)
    (hinstalled : s.caller.installed = none) : OneLive { s with cur := none } := by
  have hother : ∀ j q, pcAt s.gens j = some q → q.live = true → s.cur ≠ some j := by
    intro j q hj hq heq
    rw [hcur] at heq
    cases heq
    rw [hat] at hj
    cases hj
    rw [hlive] at hq
    cases hq
  constructor
  · exact hI.goroutine_mu
  · exact hI.caller_mu
  · exact fun j hj => absurd (hI.clearing j hj) (hother j _ hj rfl)
  · intro x hx
    rw [hreads] at hx
    cases hx
  · exact fun j q hj hq => .inr ((hI.owner j q hj hq).resolve_left (hother j q hj hq))
  · exact fun _ => rfl
  · exact hI.vacant
  · exact hI.youngest
  · exact hI.starting
  · intro g hg
    rw [hinstalled] at hg
    cases hg

/-- A goroutine clears `cur`, which it found to be its own. -/
theorem clear (hI : OneLive s) (hat : pcAt s.gens i = some .clearing) :
    OneLive { s.setPc i .unlocking with cur := none } := by
  have hmu := hI.goroutine_mu i _ hat rfl
  have hcaller : s.caller.holds ≠ true := fun hc => by
    have hcaller := hI.caller_mu hc
    rw [hmu] at hcaller
    cases hcaller
  have hvacant : s.caller.vacant ≠ true := fun hv => by
    have hnone := hI.vacant hv i _ hat
    cases hnone
  -- first the goroutine moves, with `cur` still its own; then `cur` is dropped
  have hmoved : OneLive (s.setPc i .unlocking) := hI.move hat nofun nofun (fun _ => hmu) nofun
  have hunlocking : pcAt (s.setPc i .unlocking).gens i = some .unlocking := by
    rw [System.pcAt_setPc, if_pos rfl, hat]
    rfl
  refine hmoved.dropCur (hI.clearing i hat) hunlocking rfl ?_ ?_
  · rw [Option.eq_none_iff_forall_not_mem]
    exact fun x hx => hcaller (Caller.holds_of_reads hx)
  · rw [Option.eq_none_iff_forall_not_mem]
    exact fun x hx => hvacant (Caller.vacant_of_installed hx)

/-- The caller moves on.  A goroutine that holds `mu` keeps it, and `cur` and all goroutines
stay. -/
theorem callerMoves (hI : OneLive s) (hpcs : ∀ j, pcAt s'.gens j = pcAt s.gens j)
    (hlen : s'.gens.length = s.gens.length) (hcur : s'.cur = s.cur)
    (hmu : ∀ j, s.mu = some (.goroutine j) → s'.mu = some (.goroutine j))
    (hholds : s'.caller.holds = true → s'.mu = some .caller)
    (hreads : ∀ x, s'.caller.reads = some x → s.cur = x)
    (htook : ∀ j pc, pcAt s.gens j = some pc → pc.live = true → s.caller.took = some j →
      s'.caller.took = some j)
    (hemptied : s'.caller.emptied = true → s.cur = none)
    (hvacant : s'.caller.vacant = true → ∀ j pc, pcAt s.gens j = some pc → pc.live = false)
    (hstarting : ∀ g, s'.caller.starting = some g →
      g + 1 = s.gens.length ∧ pcAt s.gens g = some .created)
    (hinstalled : ∀ g, s'.caller.installed = some g → s.cur = some g) : OneLive s' := by
  constructor
  · intro j pc hj hpc
    rw [hpcs] at hj
    exact hmu j (hI.goroutine_mu j pc hj hpc)
  · exact hholds
  · intro j hj
    rw [hpcs] at hj
    rw [hcur]
    exact hI.clearing j hj
  · intro x hx
    rw [hcur]
    exact hreads x hx
  · intro j pc hj hpc
    rw [hpcs] at hj
    rw [hcur]
    exact (hI.owner j pc hj hpc).imp_right (htook j pc hj hpc)
  · intro hc
    rw [hcur]
    exact hemptied hc
  · intro hc j pc hj
    rw [hpcs] at hj
    exact hvacant hc j pc hj
  · intro j pc hj hpc
    rw [hpcs] at hj
    rw [hlen]
    exact hI.youngest j pc hj hpc
  · intro g hg
    rw [hpcs, hlen]
    exact hstarting g hg
  · intro g hg
    rw [hcur]
    exact hinstalled g hg

theorem cancelContext (hI : OneLive s) (i : ℕ) : OneLive (s.cancelContext i) :=
  hI.callerMoves (s.pcAt_cancelContext i) (s.cancelContext_length i) rfl (fun _ h => h)
    hI.caller_mu hI.reads (fun _ _ _ _ h => h) hI.emptied hI.vacant hI.starting hI.installed

/-- The free mutex is taken by nobody, and the caller's is nobody else's. -/
theorem mu_of_none (hmu : s.mu = none) {x : Option Holder} (j : ℕ)
    (h : s.mu = some (.goroutine j)) : x = some (.goroutine j) := by
  rw [hmu] at h
  cases h

theorem mu_of_caller (hmu : s.mu = some .caller) {x : Option Holder} (j : ℕ)
    (h : s.mu = some (.goroutine j)) : x = some (.goroutine j) := by
  rw [hmu] at h
  cases h

/-- When the caller has taken the current generation out and it is done, nothing is live. -/
theorem none_live (hI : OneLive s) (hem : s.caller.emptied = true)
    (htook : ∀ i pc, s.caller.took = some i → pcAt s.gens i = some pc → pc.live = false) :
    ∀ i pc, pcAt s.gens i = some pc → pc.live = false := by
  intro i pc hat
  by_contra hl
  rcases hI.owner i pc hat (by simpa using hl) with hcur | hheld
  · rw [hI.emptied hem] at hcur
    cases hcur
  · exact hl (htook i pc hheld hat)

/-- When the caller's wait is over, nothing is live. -/
theorem none_live_of_wait (hI : OneLive s) {next : Option Generate} {old : ℕ}
    (hc : s.caller = .retire next (.wait old)) (hdone : s.isDone old = true) :
    ∀ i pc, pcAt s.gens i = some pc → pc.live = false := by
  refine hI.none_live (by rw [hc]; rfl) fun i pc htook hat => ?_
  rw [hc] at htook
  cases htook
  rw [System.pcAt_of_isDone hdone] at hat
  cases hat
  rfl

/-- When the caller found no generation to wait for, nothing is live. -/
theorem none_live_of_unlock (hI : OneLive s) {next : Option Generate}
    (hc : s.caller = .retire next (.unlock none)) :
    ∀ i pc, pcAt s.gens i = some pc → pc.live = false :=
  hI.none_live (by rw [hc]; rfl) (by rw [hc]; nofun)

end OneLive

section Steps

variable {o : Orchestrator} {s s' : System} {out : List Action}

theorem stepGoroutine_oneLive {i : ℕ} {g : Generation} {ans : Answers} (hI : OneLive s)
    (hg : s.gens[i]? = some g) (h : stepGoroutine s i g ans = some (s', out)) : OneLive s' := by
  have hat : pcAt s.gens i = some g.pc := pcAt_of_get hg
  unfold stepGoroutine at h
  cases hpc : g.pc with
  | created =>
    rw [hpc] at h
    cases h
  | running p =>
    rw [hpc] at h hat
    cases p with
    | ret a =>
      cases hmu : s.mu with
      | some x => simp [hmu] at h
      | none =>
        simp only [hmu, Option.some.injEq, Prod.mk.injEq] at h
        obtain ⟨rfl, rfl⟩ := h
        exact hI.acquire hmu hat rfl
    | call e k =>
      cases h
      exact hI.move hat nofun (fun _ => rfl) nofun nofun
  | testing =>
    rw [hpc] at h hat
    cases h
    have hmu := hI.goroutine_mu i _ hat rfl
    refine hI.move hat nofun (fun _ => rfl) (fun _ => hmu) ?_
    split
    · rename_i hcur
      exact fun _ => hcur
    · nofun
  | clearing =>
    rw [hpc] at h hat
    cases h
    exact hI.clear hat
  | unlocking =>
    rw [hpc] at h hat
    cases h
    exact hI.release hat
  | cancelling =>
    rw [hpc] at h hat
    cases h
    have hat' : pcAt (s.cancelContext i).gens i = some .cancelling := by
      rw [System.pcAt_cancelContext, hat]
    exact (hI.cancelContext i).move hat' nofun nofun nofun nofun
  | closing =>
    rw [hpc] at h hat
    cases h
    exact hI.move hat nofun nofun nofun nofun
  | exited =>
    rw [hpc] at h
    cases h

/-- The caller goes on after nothing is live. -/
theorem retired_oneLive {next : Option Generate} {mu : Option Holder} (hI : OneLive s)
    (hcur : s.cur = none) (hnone : ∀ i pc, pcAt s.gens i = some pc → pc.live = false)
    (hmu : ∀ j, s.mu = some (.goroutine j) → mu = some (.goroutine j))
    (h : retired { s with mu := mu } next = (s', out)) : OneLive s' := by
  have htook : ∀ {x : Option ℕ} j pc, pcAt s.gens j = some pc → pc.live = true →
      s.caller.took = some j → x = some j := by
    intro x j pc hj hl
    rw [hnone j pc hj] at hl
    cases hl
  cases next with
  | none =>
    cases h
    exact hI.callerMoves (fun _ => rfl) rfl rfl hmu nofun nofun htook nofun nofun nofun nofun
  | some req =>
    cases h
    exact hI.callerMoves (fun _ => rfl) rfl rfl hmu nofun nofun htook (fun _ => hcur)
      (fun _ => hnone) nofun nofun

/-- The caller clears `cur`, and keeps what it read there. -/
theorem clearCur_oneLive {next : Option Generate} {old : Option ℕ} (hI : OneLive s)
    (hc : s.caller = .retire next (.clear old)) :
    OneLive { s with cur := none, caller := .retire next (.unlock old) } := by
  have hcur : s.cur = old := hI.reads old (by rw [hc]; rfl)
  have hmu : s.mu = some .caller := hI.caller_mu (by rw [hc]; rfl)
  constructor
  · exact hI.goroutine_mu
  · exact fun _ => hmu
  · intro i hat
    have hheld := hI.goroutine_mu i _ hat rfl
    rw [hmu] at hheld
    cases hheld
  · nofun
  · intro i pc hat hl
    -- what was in `cur` is now what the caller took out
    rcases hI.owner i pc hat hl with howned | htook
    · exact .inr (hcur.symm.trans howned)
    · rw [hc] at htook
      cases htook
  · exact fun _ => rfl
  · nofun
  · exact hI.youngest
  · nofun
  · nofun

/-- The caller fills `cur`, with nothing live. -/
theorem install_oneLive {g : ℕ} (hI : OneLive s) (hc : s.caller = .install g) :
    OneLive { s with cur := some g, caller := .installUnlock g } := by
  have hmu : s.mu = some .caller := hI.caller_mu (by rw [hc]; rfl)
  have hnone := hI.vacant (by rw [hc]; rfl)
  have hdead : ∀ {P : Prop} i pc, pcAt s.gens i = some pc → pc.live = true → P := by
    intro P i pc hat hl
    rw [hnone i pc hat] at hl
    cases hl
  constructor
  · exact hI.goroutine_mu
  · exact fun _ => hmu
  · exact fun i hat => hdead i _ hat rfl
  · nofun
  · exact fun i pc hat hl => hdead i pc hat hl
  · nofun
  · exact fun _ => hnone
  · exact fun i pc hat hl => hdead i pc hat hl
  · rintro _ ⟨⟩
    exact hI.starting g (by rw [hc]; rfl)
  · rintro _ ⟨⟩
    rfl

/-- The caller creates a generation, with nothing live. -/
theorem create_oneLive {req : Generate} {g : Generation} (hI : OneLive s)
    (hc : s.caller = .create req) (hcreated : g.pc = .created) :
    OneLive { s with gens := s.gens ++ [g], caller := .installLock s.gens.length } := by
  have hcur := hI.emptied (by rw [hc]; rfl)
  have hnone : ∀ i pc, pcAt (s.gens ++ [g]) i = some pc → pc.live = false := by
    intro i pc hat
    rw [pcAt_append] at hat
    split at hat
    · rw [hcreated] at hat
      cases hat
      rfl
    · exact hI.vacant (by rw [hc]; rfl) i pc hat
  have hdead : ∀ {P : Prop} i pc, pcAt (s.gens ++ [g]) i = some pc → pc.live = true → P := by
    intro P i pc hat hl
    rw [hnone i pc hat] at hl
    cases hl
  constructor
  · intro i pc hat hh
    rw [pcAt_append] at hat
    split at hat
    · rw [hcreated] at hat
      cases hat
      cases hh
    · exact hI.goroutine_mu i pc hat hh
  · nofun
  · exact fun i hat => hdead i _ hat rfl
  · nofun
  · exact fun i pc hat hl => hdead i pc hat hl
  · exact fun _ => hcur
  · exact fun _ => hnone
  · exact fun i pc hat hl => hdead i pc hat hl
  · rintro _ ⟨⟩
    rw [pcAt_append, if_pos rfl, hcreated, List.length_append]
    exact ⟨rfl, rfl⟩
  · nofun

/-- The caller starts the goroutine it has put into `cur`. -/
theorem launch_oneLive {g : ℕ} (hI : OneLive s) (hc : s.caller = .launch g)
    (p : Generation → Run Unit) :
    OneLive { s.update g fun gen => { gen with pc := .running (p gen) } with caller := .idle } := by
  obtain ⟨hlast, hcreated⟩ := hI.starting g (by rw [hc]; rfl)
  have hcur := hI.installed g (by rw [hc]; rfl)
  have hnone := hI.vacant (by rw [hc]; rfl)
  -- after the step: the new goroutine runs, the others are where they were
  have hcases : ∀ j pc,
      pcAt (s.update g fun gen => { gen with pc := .running (p gen) }).gens j = some pc →
      (j = g ∧ ∃ q, pc = .running q) ∨ pcAt s.gens j = some pc := by
    intro j pc hj
    rw [pcAt, System.update_get] at hj
    split at hj
    · rename_i heq
      rw [Option.map_map, Option.map_eq_some_iff] at hj
      obtain ⟨gen, _, rfl⟩ := hj
      exact .inl ⟨heq.symm, _, rfl⟩
    · exact .inr hj
  have hlive : ∀ j pc,
      pcAt (s.update g fun gen => { gen with pc := .running (p gen) }).gens j = some pc →
      pc.live = true → j = g := by
    intro j pc hj hl
    rcases hcases j pc hj with ⟨rfl, _⟩ | hj
    · rfl
    · rw [hnone j pc hj] at hl
      cases hl
  constructor
  · intro j pc hj hh
    rcases hcases j pc hj with ⟨_, q, rfl⟩ | hj
    · cases hh
    · exact hI.goroutine_mu j pc hj hh
  · nofun
  · intro j hj
    rw [hlive j _ hj rfl]
    exact hcur
  · nofun
  · intro j pc hj hl
    rw [hlive j pc hj hl]
    exact .inl hcur
  · nofun
  · nofun
  · intro j pc hj hl
    rw [hlive j pc hj hl]
    exact hlast.trans (s.update_length g _).symm
  · nofun
  · nofun

theorem stepRetire_oneLive {next : Option Generate} {pc : RetirePc} (hI : OneLive s)
    (hc : s.caller = .retire next pc) (h : stepRetire s next pc = some (s', out)) :
    OneLive s' := by
  cases pc with
  | lock =>
    cases hmu : s.mu with
    | some x => simp [stepRetire, hmu] at h
    | none =>
      simp only [stepRetire, hmu, Option.some.injEq, Prod.mk.injEq] at h
      obtain ⟨rfl, rfl⟩ := h
      exact hI.callerMoves (fun _ => rfl) rfl rfl (OneLive.mu_of_none hmu) (fun _ => rfl) nofun
        (by rw [hc]; nofun) nofun nofun nofun nofun
  | read =>
    cases h
    have hmu : s.mu = some .caller := hI.caller_mu (by rw [hc]; rfl)
    refine hI.callerMoves (fun _ => rfl) rfl rfl (fun _ hj => hj) (fun _ => hmu) ?_
      (by rw [hc]; nofun) nofun nofun nofun nofun
    rintro _ ⟨⟩
    rfl
  | clear old =>
    cases h
    exact clearCur_oneLive hI hc
  | unlock old =>
    have hcur := hI.emptied (by rw [hc]; rfl)
    have hmu : s.mu = some .caller := hI.caller_mu (by rw [hc]; rfl)
    cases old with
    | none =>
      simp only [stepRetire, Option.some.injEq] at h
      exact retired_oneLive hI hcur (hI.none_live_of_unlock hc) (OneLive.mu_of_caller hmu) h
    | some old =>
      cases h
      exact hI.callerMoves (fun _ => rfl) rfl rfl (OneLive.mu_of_caller hmu) nofun nofun
        (by rw [hc]; exact fun _ _ _ _ htook => htook) (fun _ => hcur) nofun nofun nofun
  | cancel old =>
    cases h
    have hcur := hI.emptied (by rw [hc]; rfl)
    exact hI.callerMoves (s.pcAt_cancelContext old) (s.cancelContext_length old) rfl
      (fun _ hj => hj) nofun nofun (by rw [hc]; exact fun _ _ _ _ htook => htook)
      (fun _ => hcur) nofun nofun nofun
  | wait old =>
    simp only [stepRetire] at h
    split at h
    · rename_i hdone
      simp only [Option.some.injEq] at h
      exact retired_oneLive hI (hI.emptied (by rw [hc]; rfl)) (hI.none_live_of_wait hc hdone)
        (fun _ hj => hj) h
    · cases h

theorem stepCaller_oneLive (hI : OneLive s) (h : stepCaller o s = some (s', out)) :
    OneLive s' := by
  unfold stepCaller at h
  cases hc : s.caller with
  | idle =>
    rw [hc] at h
    cases h
  | retire next pc =>
    rw [hc] at h
    exact stepRetire_oneLive hI hc h
  | create req =>
    rw [hc] at h
    cases h
    exact create_oneLive hI hc rfl
  | installLock g =>
    rw [hc] at h
    cases hmu : s.mu with
    | some x => simp [hmu] at h
    | none =>
      simp only [hmu, Option.some.injEq, Prod.mk.injEq] at h
      obtain ⟨rfl, rfl⟩ := h
      have hcur := hI.emptied (by rw [hc]; rfl)
      have hnone := hI.vacant (by rw [hc]; rfl)
      have hstart := hI.starting
      rw [hc] at hstart
      exact hI.callerMoves (fun _ => rfl) rfl rfl (OneLive.mu_of_none hmu) (fun _ => rfl) nofun
        (by rw [hc]; nofun) (fun _ => hcur) (fun _ => hnone) hstart nofun
  | install g =>
    rw [hc] at h
    cases h
    exact install_oneLive hI hc
  | installUnlock g =>
    rw [hc] at h
    cases h
    have hmu : s.mu = some .caller := hI.caller_mu (by rw [hc]; rfl)
    have hnone := hI.vacant (by rw [hc]; rfl)
    have hstart := hI.starting
    have hinstalled := hI.installed
    rw [hc] at hstart hinstalled
    exact hI.callerMoves (fun _ => rfl) rfl rfl (OneLive.mu_of_caller hmu) nofun nofun
      (by rw [hc]; nofun) nofun (fun _ => hnone) hstart hinstalled
  | launch g =>
    rw [hc] at h
    cases h
    exact launch_oneLive hI hc fun gen => run o gen.req
  | cancelLock generationId =>
    rw [hc] at h
    cases hmu : s.mu with
    | some x => simp [hmu] at h
    | none =>
      simp only [hmu, Option.some.injEq, Prod.mk.injEq] at h
      obtain ⟨rfl, rfl⟩ := h
      exact hI.callerMoves (fun _ => rfl) rfl rfl (OneLive.mu_of_none hmu) (fun _ => rfl) nofun
        (by rw [hc]; nofun) nofun nofun nofun nofun
  | cancelTest generationId =>
    rw [hc] at h
    have hmu : s.mu = some .caller := hI.caller_mu (by rw [hc]; rfl)
    cases hmatch : matches? s generationId with
    | none =>
      simp only [hmatch, Option.some.injEq, Prod.mk.injEq] at h
      obtain ⟨rfl, rfl⟩ := h
      exact hI.callerMoves (fun _ => rfl) rfl rfl (fun _ hj => hj) (fun _ => hmu) nofun
        (by rw [hc]; nofun) nofun nofun nofun nofun
    | some g =>
      simp only [hmatch, Option.some.injEq, Prod.mk.injEq] at h
      obtain ⟨rfl, rfl⟩ := h
      exact hI.callerMoves (fun _ => rfl) rfl rfl (fun _ hj => hj) (fun _ => hmu) nofun
        (by rw [hc]; nofun) nofun nofun nofun nofun
  | cancelFire g =>
    rw [hc] at h
    cases h
    have hmu : s.mu = some .caller := hI.caller_mu (by rw [hc]; rfl)
    exact hI.callerMoves (s.pcAt_cancelContext g) (s.cancelContext_length g) rfl
      (fun _ hj => hj) (fun _ => hmu) nofun (by rw [hc]; nofun) nofun nofun nofun nofun
  | cancelUnlock matched =>
    rw [hc] at h
    cases h
    have hmu : s.mu = some .caller := hI.caller_mu (by rw [hc]; rfl)
    exact hI.callerMoves (fun _ => rfl) rfl rfl (OneLive.mu_of_caller hmu) nofun nofun
      (by rw [hc]; nofun) nofun nofun nofun nofun

/-- **Step lemma.**  Every step keeps at most one goroutine live. -/
theorem step_oneLive (s : System) (a : Label) (s' : System) (out : List Action) (hI : OneLive s)
    (h : step o s a = some (s', out)) : OneLive s' := by
  cases a with
  | call c =>
    simp only [step] at h
    split at h
    · rename_i hc
      cases h
      cases c <;> exact hI.callerMoves (fun _ => rfl) rfl rfl (fun _ hj => hj) nofun nofun
        (by rw [hc]; nofun) nofun nofun nofun nofun
    · cases h
  | caller => exact stepCaller_oneLive hI h
  | goroutine i ans =>
    simp only [step] at h
    split at h
    · cases h
    · rename_i g hg
      exact stepGoroutine_oneLive hI hg h
  | parentCancel =>
    cases h
    exact hI.callerMoves (pcAt_map_cancelled s.gens) (List.length_map _) rfl (fun _ hj => hj)
      hI.caller_mu hI.reads (fun _ _ _ _ htook => htook) hI.emptied hI.vacant hI.starting
      hI.installed

/-- **At most one goroutine executes `run`.** -/
theorem OneLive.unique (hI : OneLive s) {i j : ℕ} {pc pc' : GenerationPc}
    (hi : pcAt s.gens i = some pc) (hl : pc.live = true) (hj : pcAt s.gens j = some pc')
    (hl' : pc'.live = true) : i = j := by
  have hlast := hI.youngest i pc hi hl
  have hlast' := hI.youngest j pc' hj hl'
  omega

end Steps

end AetherForge
