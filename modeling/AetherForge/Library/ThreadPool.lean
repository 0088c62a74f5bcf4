import Mathlib.Data.List.Basic

/-!
# A pool of threads

Threads kept in a list and stepped one at a time: a step replaces one element.

* `countP_set` — how the number of threads in some phase changes;
* `flatMap_set` — what the threads hold when only one of them may hold anything.
-/

namespace ThreadPool

variable {τ β : Type*} {pool : List τ} {k : ℕ} {t : τ}

/-- The pool around one of its threads. -/
theorem split (h : pool[k]? = some t) :
    ∃ before after, pool = before ++ t :: after ∧
      ∀ t', pool.set k t' = before ++ t' :: after := by
  obtain ⟨hk, rfl⟩ := List.getElem?_eq_some_iff.mp h
  refine ⟨pool.take k, pool.drop (k + 1), ?_, fun t' => ?_⟩
  · rw [List.getElem_cons_drop, List.take_append_drop]
  · rw [List.set_eq_take_append_cons_drop, if_pos hk]

/-- **Counting** the threads in a phase, when one goes on. -/
theorem countP_set (h : pool[k]? = some t) (t' : τ) (p : τ → Bool) :
    (pool.set k t').countP p + (if p t then 1 else 0) =
      pool.countP p + (if p t' then 1 else 0) := by
  obtain ⟨hk, rfl⟩ := List.getElem?_eq_some_iff.mp h
  have hle := List.boole_getElem_le_countP (p := p) hk
  rw [List.countP_set hk]
  omega

/-- A thread other than the one that goes on is still there. -/
theorem mem_set_of_ne (h : pool[k]? = some t) {t' u : τ} (hu : u ∈ pool) (hne : u ≠ t) :
    u ∈ pool.set k t' := by
  obtain ⟨before, after, hpool, hset⟩ := split h
  rw [hpool] at hu
  rw [hset]
  simp only [List.mem_append, List.mem_cons] at hu ⊢
  tauto

/-- What the pool holds after a step is what the thread holds, or was held before. -/
theorem mem_flatMap_set {held : τ → List β} {t' : τ} {b : β}
    (hb : b ∈ (pool.set k t').flatMap held) :
    b ∈ held t' ∨ b ∈ pool.flatMap held := by
  obtain ⟨u, hu, hbu⟩ := List.mem_flatMap.mp hb
  rcases List.mem_or_eq_of_mem_set hu with hu | rfl
  · exact .inr (List.mem_flatMap.mpr ⟨u, hu, hbu⟩)
  · exact .inl hbu

theorem mem_flatMap_of_getElem? {held : τ → List β} (h : pool[k]? = some t) {b : β}
    (hb : b ∈ held t) : b ∈ pool.flatMap held :=
  List.mem_flatMap.mpr ⟨t, List.mem_of_getElem? h, hb⟩

theorem flatMap_eq_nil_of_countP {p : τ → Bool} {held : τ → List β}
    (hidle : ∀ u, p u = false → held u = []) (h : pool.countP p = 0) :
    pool.flatMap held = [] := by
  refine List.flatMap_eq_nil_iff.mpr fun u hu => hidle u ?_
  simpa using List.countP_eq_zero.mp h u hu

/-- **Holding.**  Only threads in a phase hold anything, and one is in it: what the pool holds is
what that thread holds, before it goes on and after. -/
theorem flatMap_set {p : τ → Bool} {held : τ → List β}
    (hidle : ∀ u, p u = false → held u = []) (hone : pool.countP p ≤ 1)
    (h : pool[k]? = some t) (ht : p t = true) (t' : τ) :
    pool.flatMap held = held t ∧ (pool.set k t').flatMap held = held t' := by
  obtain ⟨before, after, hpool, hset⟩ := split h
  rw [hpool, List.countP_append, List.countP_cons, if_pos ht] at hone
  have hbefore : before.flatMap held = [] := flatMap_eq_nil_of_countP hidle (by omega)
  have hafter : after.flatMap held = [] := flatMap_eq_nil_of_countP hidle (by omega)
  rw [hset, hpool]
  simp only [List.flatMap_append, List.flatMap_cons, hbefore, hafter, List.nil_append,
    List.append_nil, and_self]

/-- A thread that holds nothing and goes on to hold nothing changes nothing. -/
theorem flatMap_set_same {held : τ → List β} (h : pool[k]? = some t) {t' : τ}
    (hsame : held t' = held t) : (pool.set k t').flatMap held = pool.flatMap held := by
  obtain ⟨before, after, hpool, hset⟩ := split h
  rw [hset, hpool]
  simp only [List.flatMap_append, List.flatMap_cons, hsame]

end ThreadPool
