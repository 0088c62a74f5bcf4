import AetherForge.Backend.PlacementOutput

/-!
# What the draws lay out

A placement seen from the random stream alone, with neither hash nor loops: the instances come one
after the other, and each is laid at the first of its candidates that overlaps nothing laid before.
An instance is blocked when all the candidates that it is offered overlap something.

* `Lays` — the stream lays out these instances, and goes on from there;
* `Lays.unique` — in one way only;
* `placeItems_lays` — the item loop follows the layout, up to the first instance that is blocked;
* `placeItems_eq_error_iff` — it fails exactly when one of them is.
-/

namespace AetherForge

open Go GridCells

/-! ### Layouts -/

/-- The footprints laid so far, each under its category. -/
abbrev Layout := List (String × Placed)

/-- The footprints of a category. -/
def Layout.members (l : Layout) (k : String) : List Placed :=
  (l.filter fun p => p.1 = k).map Prod.snd

/-- The candidate that comes after `k` others, and the stream after it. -/
def thrown (D : Draws) (it : CategoryRecipe) (r : ℚ) (area : Area) (anchors : List Placed) (k : ℕ)
    (s : D.State) : (ℚ × ℚ) × D.State :=
  dart D it r area anchors ((fun s => (dart D it r area anchors s).2)^[k] s)

section Layouts

variable (D : Draws) (bounds : Bounds) (manifest : Manifest)

/-- The candidate offered to an instance after `k` others. -/
def offered (it : CategoryRecipe) (l : Layout) (k : ℕ) (s : D.State) : (ℚ × ℚ) × D.State :=
  thrown D it (radius manifest it.category) (footprintArea bounds (radius manifest it.category))
    (l.members it.category) k s

/-- A footprint there would overlap one that is laid. -/
def Occupied (it : CategoryRecipe) (l : Layout) (c : ℚ × ℚ) : Prop :=
  ∃ p ∈ l, Disc.Overlaps ⟨c.1, c.2, radius manifest it.category⟩ p.2

/-- From `s₀` on, the stream lays out the instances: each at the first candidate that is not
occupied, with two more draws for its yaw and its scale. -/
inductive Lays (s₀ : D.State) : List CategoryRecipe → Layout → D.State → Prop
  | nil : Lays s₀ [] [] s₀
  | snoc {its : List CategoryRecipe} {l : Layout} {s : D.State} (h : Lays s₀ its l s)
      {it : CategoryRecipe} {k : ℕ} (hk : k < maxAttempts)
      (hoccupied : ∀ j < k, Occupied manifest it l (offered D bounds manifest it l j s).1)
      (hfree : ¬Occupied manifest it l (offered D bounds manifest it l k s).1) :
      Lays s₀ (its ++ [it])
        (l ++ [(it.category, ⟨(offered D bounds manifest it l k s).1.1,
          (offered D bounds manifest it l k s).1.2, radius manifest it.category⟩)])
        (D.float64 (D.float64 (offered D bounds manifest it l k s).2).2).2

/-- Every candidate that the instance is offered is occupied. -/
def Blocked (it : CategoryRecipe) (l : Layout) (s : D.State) : Prop :=
  ∀ k < maxAttempts, Occupied manifest it l (offered D bounds manifest it l k s).1

/-- One of the instances is blocked where those before it are laid. -/
def Obstructed (s₀ : D.State) (its : List CategoryRecipe) : Prop :=
  ∃ before it after l s, its = before ++ it :: after ∧ Lays D bounds manifest s₀ before l s ∧
    Blocked D bounds manifest it l s

end Layouts

/-- The instances that items ask for, in the order of the items. -/
def instances (items : List CategoryRecipe) : List CategoryRecipe :=
  items.flatMap fun it => List.replicate it.count.toNat it

section Unique

variable {D : Draws} {bounds : Bounds} {manifest : Manifest} {s₀ : D.State}

theorem Lays.categories {its : List CategoryRecipe} {l : Layout} {s : D.State}
    (h : Lays D bounds manifest s₀ its l s) : l.map Prod.fst = its.map (·.category) := by
  induction h with
  | nil => rfl
  | snoc _ _ _ _ ih => rw [List.map_append, List.map_append, ih, List.map_singleton,
      List.map_singleton]

/-- The last instance of a layout, where those before it are laid. -/
theorem Lays.last {its : List CategoryRecipe} {it : CategoryRecipe} {l : Layout} {s : D.State}
    (h : Lays D bounds manifest s₀ (its ++ [it]) l s) :
    ∃ l' s' k, Lays D bounds manifest s₀ its l' s' ∧ k < maxAttempts ∧
      (∀ j < k, Occupied manifest it l' (offered D bounds manifest it l' j s').1) ∧
      ¬Occupied manifest it l' (offered D bounds manifest it l' k s').1 ∧
      l = l' ++ [(it.category, ⟨(offered D bounds manifest it l' k s').1.1,
        (offered D bounds manifest it l' k s').1.2, radius manifest it.category⟩)] ∧
      s = (D.float64 (D.float64 (offered D bounds manifest it l' k s').2).2).2 := by
  generalize hits : its ++ [it] = its' at h
  cases h with
  | nil => exact absurd hits (by simp)
  | @snoc before l' s' h it' k hk hoccupied hfree =>
    obtain ⟨rfl, heq⟩ := List.append_inj' hits rfl
    obtain rfl := List.singleton_injective heq
    exact ⟨l', s', k, h, hk, hoccupied, hfree, rfl, rfl⟩

/-- **The stream decides**: instances are laid out in one way only. -/
theorem Lays.unique {its : List CategoryRecipe} {l l' : Layout} {s s' : D.State}
    (h : Lays D bounds manifest s₀ its l s) (h' : Lays D bounds manifest s₀ its l' s') :
    l = l' ∧ s = s' := by
  induction h generalizing l' s' with
  | nil =>
    generalize hits : ([] : List CategoryRecipe) = its' at h'
    cases h' with
    | nil => exact ⟨rfl, rfl⟩
    | snoc _ _ _ _ => exact absurd hits (by simp)
  | @snoc its l s h it k hk hoccupied hfree ih =>
    obtain ⟨l'', s'', k', h'', hk', hoccupied', hfree', rfl, rfl⟩ := h'.last
    obtain ⟨rfl, rfl⟩ := ih h''
    -- both took the first candidate that is free
    have hkk : k = k' := by
      rcases lt_trichotomy k k' with hlt | heq | hgt
      · exact absurd (hoccupied' k hlt) hfree
      · exact heq
      · exact absurd (hoccupied k' hgt) hfree'
    rw [hkk]
    exact ⟨rfl, rfl⟩

/-- What is laid out is laid out up to every instance in it, and that one is not blocked. -/
theorem Lays.not_blocked {before after : List CategoryRecipe} {it : CategoryRecipe} {l l' : Layout}
    {s s' : D.State} (h : Lays D bounds manifest s₀ (before ++ it :: after) l s)
    (h' : Lays D bounds manifest s₀ before l' s') : ¬Blocked D bounds manifest it l' s' := by
  induction after using List.reverseRecOn generalizing l s with
  | nil =>
    intro hblocked
    obtain ⟨l'', s'', k, h'', hk, -, hfree, -, -⟩ := h.last
    obtain ⟨rfl, rfl⟩ := h'.unique h''
    exact hfree (hblocked k hk)
  | append_singleton after it' ih =>
    rw [← List.cons_append, ← List.append_assoc] at h
    obtain ⟨l'', s'', k, h'', -⟩ := h.last
    exact ih h''

end Unique

/-! ### The loops follow the layout -/

section Attempts

variable {D : Draws} (it : CategoryRecipe) {r : ℚ} {area : Area} (hash : SpatialHash)
  {anchors : List Placed}

/-- The attempt loop returns the first candidate that the hash finds free, if there is one. -/
theorem throwDarts_spec (n : ℕ) (s : D.State) :
    (∃ k < n, (∀ j < k, hash.overlaps (thrown D it r area anchors j s).1.1
          (thrown D it r area anchors j s).1.2 r = true) ∧
        hash.overlaps (thrown D it r area anchors k s).1.1
          (thrown D it r area anchors k s).1.2 r = false ∧
        throwDarts D it r area hash anchors n s = some (thrown D it r area anchors k s)) ∨
      ((∀ k < n, hash.overlaps (thrown D it r area anchors k s).1.1
          (thrown D it r area anchors k s).1.2 r = true) ∧
        throwDarts D it r area hash anchors n s = none) := by
  induction n generalizing s with
  | zero => exact .inr ⟨fun k hk => absurd hk k.not_lt_zero, rfl⟩
  | succ n ih =>
    have hnext (k : ℕ) : thrown D it r area anchors (k + 1) s =
      thrown D it r area anchors k (dart D it r area anchors s).2 := rfl
    rw [throwDarts]
    cases hfirst : hash.overlaps (dart D it r area anchors s).1.1
        (dart D it r area anchors s).1.2 r with
    | false => exact .inl ⟨0, n.succ_pos, fun j hj => absurd hj j.not_lt_zero, hfirst, rfl⟩
    | true =>
      rcases ih (dart D it r area anchors s).2 with ⟨k, hk, hov, hfree, hd⟩ | ⟨hov, hd⟩
      · refine .inl ⟨k + 1, Nat.succ_lt_succ hk, ?_, hfree, hd⟩
        rintro (_ | j) hj
        · exact hfirst
        · rw [hnext]
          exact hov j (Nat.lt_of_succ_lt_succ hj)
      · refine .inr ⟨?_, hd⟩
        rintro (_ | k) hk
        · exact hfirst
        · rw [hnext]
          exact hov k (Nat.lt_of_succ_lt_succ hk)

end Attempts

section Loops

variable {D : Draws} {bounds : Bounds} {manifest : Manifest} {maxR : ℚ} {s₀ : D.State}

/-- The footprints of the entries so far. -/
def layoutOf (manifest : Manifest) (entries : List AssetEntry) : Layout :=
  entries.map fun e => (e.category, footprint manifest e)

/-- The hash answers whether a spot is occupied. -/
theorem PlaceInv.occupied_iff {st : Progress D} (h : PlaceInv manifest maxR st)
    {it : CategoryRecipe} (hr : 0 ≤ radius manifest it.category) (c : ℚ × ℚ) :
    st.hash.overlaps c.1 c.2 (radius manifest it.category) = true ↔
      Occupied manifest it (layoutOf manifest st.entries) c := by
  rw [h.overlaps_iff hr]
  simp only [Occupied, layoutOf, List.mem_map, exists_exists_and_eq_and]

/-- The progress has come as far as the instances. -/
structure InStep (bounds : Bounds) (manifest : Manifest) (maxR : ℚ) (s₀ : D.State)
    (its : List CategoryRecipe) (st : Progress D) : Prop where
  inv : PlaceInv manifest maxR st
  lays : Lays D bounds manifest s₀ its (layoutOf manifest st.entries) st.rng

theorem InStep.start (maxR : ℚ) (s₀ : D.State) :
    InStep bounds manifest maxR s₀ [] (⟨s₀, newSpatialHash maxR, []⟩ : Progress D) :=
  ⟨PlaceInv.start manifest maxR s₀, .nil⟩

/-- The outcome of a part of the loops that is to place some instances: they are laid, or one of
them is blocked. -/
def StaysInStep (bounds : Bounds) (manifest : Manifest) (maxR : ℚ) (s₀ : D.State)
    (its more : List CategoryRecipe) (outcome : Except PlaceError (Progress D)) : Prop :=
  (∃ st, outcome = .ok st ∧ InStep bounds manifest maxR s₀ (its ++ more) st) ∨
    ((∃ e, outcome = .error e) ∧ ∃ before it after l s, more = before ++ it :: after ∧
      Lays D bounds manifest s₀ (its ++ before) l s ∧ Blocked D bounds manifest it l s)

/-- **Step lemma.**  The attempts of an instance lay it, or it is blocked. -/
theorem InStep.attempts {its : List CategoryRecipe} {st : Progress D}
    (h : InStep bounds manifest maxR s₀ its st) {it : CategoryRecipe}
    (hr : 0 ≤ radius manifest it.category) (hmax : radius manifest it.category ≤ maxR) :
    (∃ d, throwDarts D it (radius manifest it.category)
        (footprintArea bounds (radius manifest it.category)) st.hash
        ((layoutOf manifest st.entries).members it.category) maxAttempts st.rng = some d ∧
      InStep bounds manifest maxR s₀ (its ++ [it])
        (st.accept it (manifest.getD it.category default) d)) ∨
    (throwDarts D it (radius manifest it.category)
        (footprintArea bounds (radius manifest it.category)) st.hash
        ((layoutOf manifest st.entries).members it.category) maxAttempts st.rng = none ∧
      Blocked D bounds manifest it (layoutOf manifest st.entries) st.rng) := by
  rcases throwDarts_spec it st.hash maxAttempts st.rng with
    ⟨k, hk, hov, hfree, hd⟩ | ⟨hov, hd⟩
  · refine .inl ⟨_, hd, h.inv.accept rfl hr hmax hfree, ?_⟩
    have hnot : ¬Occupied manifest it (layoutOf manifest st.entries) _ := fun hoccupied => by
      rw [(h.inv.occupied_iff hr _).mpr hoccupied] at hfree
      cases hfree
    have hlays := h.lays.snoc hk (fun j hj => (h.inv.occupied_iff hr _).mp (hov j hj)) hnot
    rw [layoutOf, Progress.accept, List.map_append]
    exact hlays
  · exact .inr ⟨hd, fun k hk => (h.inv.occupied_iff hr _).mp (hov k hk)⟩

theorem members_append_self (l : Layout) (k : String) (p : Placed) :
    Layout.members (l ++ [(k, p)]) k = l.members k ++ [p] := by
  simp [Layout.members]

/-- **An item's instances** follow the layout. -/
theorem placeItem_follows {it : CategoryRecipe} (hr : 0 ≤ radius manifest it.category)
    (hmax : radius manifest it.category ≤ maxR) (n : ℕ) {its : List CategoryRecipe}
    {st : Progress D} (h : InStep bounds manifest maxR s₀ its st) :
    StaysInStep bounds manifest maxR s₀ its (List.replicate n it)
      (placeItem bounds manifest it n ((layoutOf manifest st.entries).members it.category) st) := by
  induction n generalizing its st with
  | zero =>
    refine .inl ⟨st, rfl, ?_⟩
    rw [List.replicate_zero, List.append_nil]
    exact h
  | succ n ih =>
    rw [placeItem_succ, List.replicate_succ]
    rcases h.attempts hr hmax with ⟨d, hd, hnext⟩ | ⟨hd, hblocked⟩
    · rw [hd]
      have hanchors : (layoutOf manifest
            (st.accept it (manifest.getD it.category default) d).entries).members it.category =
          (layoutOf manifest st.entries).members it.category ++
            [⟨d.1.1, d.1.2, radius manifest it.category⟩] := by
        rw [layoutOf, Progress.accept, List.map_append]
        exact members_append_self _ _ _
      have hrest := ih hnext
      rw [hanchors] at hrest
      rcases hrest with ⟨st', hst', hstep⟩ | ⟨herror, before, it', after, l, s, hmore, hlays⟩
      · refine .inl ⟨st', hst', ?_⟩
        rw [List.append_cons]
        exact hstep
      · refine .inr ⟨herror, it :: before, it', after, l, s, by rw [hmore]; rfl, ?_⟩
        rw [List.append_cons]
        exact hlays
    · rw [hd]
      refine .inr ⟨⟨_, rfl⟩, [], it, List.replicate n it, _, _, rfl, ?_, hblocked⟩
      rw [List.append_nil]
      exact h.lays

/-- The members of a category that is not among the instances. -/
theorem InStep.members_eq_nil {its : List CategoryRecipe} {st : Progress D}
    (h : InStep bounds manifest maxR s₀ its st) {k : String} (hk : k ∉ its.map (·.category)) :
    (layoutOf manifest st.entries).members k = [] := by
  rw [← h.lays.categories] at hk
  rw [Layout.members, List.filter_eq_nil_iff.mpr, List.map_nil]
  intro p hp hsame
  exact hk (List.mem_map.mpr ⟨p, hp, of_decide_eq_true hsame⟩)

/-- **The items** follow the layout, when each fits the bounds. -/
theorem placeItems_follows {items : List CategoryRecipe} (hradii : RadiiWithin manifest maxR items)
    (hfit : ∀ it ∈ items, Fits bounds (radius manifest it.category))
    (hdistinct : (items.map (·.category)).Nodup) {its : List CategoryRecipe}
    (hfresh : ∀ it ∈ items, it.category ∉ its.map (·.category)) {st : Progress D}
    (h : InStep bounds manifest maxR s₀ its st) :
    StaysInStep bounds manifest maxR s₀ its (instances items)
      (placeItems bounds manifest items st) := by
  induction items generalizing its st with
  | nil =>
    refine .inl ⟨st, rfl, ?_⟩
    rw [instances, List.flatMap_nil, List.append_nil]
    exact h
  | cons it rest ih =>
    obtain ⟨hit, hrest⟩ := List.forall_mem_cons.mp hradii
    obtain ⟨hitfit, hfit⟩ := List.forall_mem_cons.mp hfit
    obtain ⟨hitfresh, hfresh⟩ := List.forall_mem_cons.mp hfresh
    obtain ⟨hnew, hdistinct⟩ := List.nodup_cons.mp hdistinct
    have hturn := placeItem_follows hit.1 hit.2 it.count.toNat h
    rw [h.members_eq_nil hitfresh] at hturn
    rw [placeItems_cons_of_fits hitfit, instances, List.flatMap_cons]
    rcases hturn with ⟨st₁, hst₁, hstep⟩ | ⟨⟨e, he⟩, before, it', after, l, s, hmore, hlays⟩
    · rw [hst₁]
      have hfresh' : ∀ it' ∈ rest, it'.category ∉
          (its ++ List.replicate it.count.toNat it).map (·.category) := by
        intro it' hit' hmem
        rw [List.map_append, List.mem_append] at hmem
        rcases hmem with hold | hturn
        · exact hfresh it' hit' hold
        · obtain ⟨it'', hit'', hsame⟩ := List.mem_map.mp hturn
          rw [List.eq_of_mem_replicate hit''] at hsame
          exact hnew (List.mem_map.mpr ⟨it', hit', hsame.symm⟩)
      rcases ih hrest hfit hdistinct hfresh' hstep with
        ⟨st', hst', hstep'⟩ | ⟨herror, before, it', after, l, s, hmore, hlays⟩
      · refine .inl ⟨st', hst', ?_⟩
        rw [← List.append_assoc]
        exact hstep'
      · refine .inr ⟨herror, List.replicate it.count.toNat it ++ before, it', after, l, s, ?_, ?_⟩
        · rw [List.append_assoc, ← hmore]
          rfl
        · rw [← List.append_assoc]
          exact hlays
    · rw [he]
      refine .inr ⟨⟨e, rfl⟩, before, it', after ++ instances rest, l, s, ?_, hlays⟩
      rw [hmore, List.append_assoc]
      rfl

/-- **When the item loop fails**, each item fitting the bounds: one of the instances is blocked. -/
theorem placeItems_eq_error_iff {items : List CategoryRecipe}
    (hradii : RadiiWithin manifest maxR items)
    (hfit : ∀ it ∈ items, Fits bounds (radius manifest it.category))
    (hdistinct : (items.map (·.category)).Nodup) :
    (∃ e, placeItems bounds manifest items (⟨s₀, newSpatialHash maxR, []⟩ : Progress D) =
        .error e) ↔
      Obstructed D bounds manifest s₀ (instances items) := by
  have hfollows := placeItems_follows hradii hfit hdistinct
    (fun _ _ => List.not_mem_nil) (.start maxR s₀)
  rcases hfollows with ⟨st, hst, hstep⟩ | ⟨herror, hblocked⟩
  · refine iff_of_false ?_ ?_
    · rintro ⟨e, he⟩
      cases hst.symm.trans he
    · rintro ⟨before, it, after, l, s, hits, hlays, hblocked⟩
      have hall := hstep.lays
      rw [List.nil_append, hits] at hall
      exact hall.not_blocked hlays hblocked
  · exact iff_of_true herror hblocked

end Loops

end AetherForge
