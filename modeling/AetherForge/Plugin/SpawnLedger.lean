import AetherForge.Plugin.Messages
import AetherForge.Plugin.Roster

/-!
# The spawner's books

The books count what the roster lists: how many entries an open generation has received, spawned
and skipped.  They accept a final broadcast only when the counts add up and the queues are empty.

* `accept_of_enroll` — the books accept what the roster accepts;
* `Settles` — how many entries in flight an operation settles;
* `call_keeps` — every call of the spawner keeps the books.
-/

namespace AetherForge.Plugin

open Operation Transition

/-! ### The books -/

/-- The account of an open generation. -/
structure Account where
  received : ℕ
  spawned : ℕ
  skipped : ℕ
  deriving DecidableEq

/-- What the books accept: a generation is opened when none is open, entries are received,
spawned and skipped while one is, and the final broadcast states exactly the counts of the
account, with every entry processed and none left. -/
def accept : Option Account → SpawnAction → Option (Option Account)
  | none, .opened _ => some (some ⟨0, 0, 0⟩)
  | some a, .received _ => some (some { a with received := a.received + 1 })
  | some a, .spawned _ _ _ => some (some { a with spawned := a.spawned + 1 })
  | some a, .skipped _ _ => some (some { a with skipped := a.skipped + 1 })
  | some a, .finalized stats left =>
    if stats.spawnedCount = a.spawned ∧ stats.skippedCount = a.skipped ∧
        a.received = a.spawned + a.skipped ∧ left = [] then some none
    else none
  | b, .requested _ _ => some b
  | b, .cancelled _ => some b
  | _, _ => none

namespace Spawner

/-- The entries spawned, skipped or queued. -/
def total (s : Spawner) : ℕ := s.stats.spawnedCount + s.stats.skippedCount + s.numPendingEntries

/-- The account of an open generation while `k` received entries are in flight: neither queued
nor counted. -/
def inFlight (s : Spawner) (k : ℕ) : Account :=
  ⟨s.total + k, s.stats.spawnedCount, s.stats.skippedCount⟩

/-- The account of the state. -/
def account (s : Spawner) : Option Account :=
  if s.activeTransaction then some (s.inFlight 0) else none

end Spawner

/-- In an open generation, what is shown settles `n` of the entries in flight. -/
def Settles (n : ℕ) (s : Spawner) (o : List SpawnAction) (t : Spawner) : Prop :=
  Open s → Open t ∧ ∀ k, follow accept (some (s.inFlight (n + k))) o = some (some (t.inFlight k))

/-- The operation keeps the invariant, and what it shows drives the books. -/
abbrev Keeps (f : SpawnOp) : Prop := Meets (Follows accept Consistent Spawner.account) f

theorem composable : Composable (Follows accept Consistent Spawner.account) :=
  follows_composable _ _ _

/-! ### From the roster to the books -/

/-- The account of a roster. -/
def Roster.account (r : Roster) : Account :=
  ⟨r.spawned + r.skipped + r.outstanding.card, r.spawned, r.skipped⟩

section Books

variable {s t : Spawner} {o : List SpawnAction}

/-- Entries that are spawned or skipped were received. -/
theorem card_erase {r : Roster} {entry : AssetEntry} (h : entry ∈ r.outstanding) :
    (r.outstanding.erase entry).card + 1 = r.outstanding.card := by
  rw [Multiset.card_erase_of_mem h]
  exact Nat.succ_pred_eq_of_pos (Multiset.card_pos_iff_exists_mem.mpr ⟨entry, h⟩)

/-- **The books accept what the roster accepts.** -/
theorem accept_of_enroll (b : Option Roster) (x : SpawnAction) (b' : Option Roster)
    (h : enroll b x = some b') :
    accept (b.map Roster.account) x = some (b'.map Roster.account) := by
  cases b with
  | none =>
    cases x with
    | opened | requested | cancelled =>
      cases h
      rfl
    | received | spawned | skipped | finalized => cases h
  | some r =>
    cases x with
    | opened => cases h
    | requested | cancelled =>
      cases h
      rfl
    | received entry =>
      cases h
      simp only [Option.map_some, accept, Roster.account, Multiset.card_cons]
      rfl
    | spawned generationId entry z =>
      simp only [enroll] at h
      split at h
      · rename_i hentry
        cases h
        have hcard := card_erase hentry.2
        simp only [Option.map_some, accept, Roster.account, Option.some.injEq, Account.mk.injEq,
          and_true]
        omega
      · cases h
    | skipped entry why =>
      simp only [enroll] at h
      split at h
      · rename_i hentry
        cases h
        have hcard := card_erase hentry
        simp only [Option.map_some, accept, Roster.account, Option.some.injEq, Account.mk.injEq,
          and_true]
        omega
      · cases h
    | finalized stats left =>
      simp only [enroll] at h
      split at h
      · rename_i hexact
        obtain ⟨hspawned, hskipped, hnone, hleft⟩ := hexact
        cases h
        have hreceived : r.account.received = r.account.spawned + r.account.skipped := by
          rw [Roster.account, hnone, Multiset.card_zero, Nat.add_zero]
        exact if_pos ⟨hspawned, hskipped, hreceived, hleft⟩
      · cases h

theorem inFlightRoster_account (s : Spawner) (flight : Multiset AssetEntry) :
    (s.inFlightRoster flight).account = s.inFlight flight.card := by
  simp only [Roster.account, Spawner.inFlightRoster, Spawner.inFlight, Spawner.total,
    Multiset.card_add, Multiset.coe_card, pendingEntries_length, Account.mk.injEq, and_true]
  omega

theorem roster_account (s : Spawner) : s.roster.map Roster.account = s.account := by
  unfold Spawner.roster Spawner.account
  split
  · rw [Option.map_some, inFlightRoster_account, Multiset.card_zero]
  · rfl

/-- What handles entries settles as many. -/
theorem Handles.settles {es : Multiset AssetEntry} (h : Handles es s o t) :
    Settles es.card s o t := by
  intro hs
  obtain ⟨ht, -, hroster⟩ := h hs
  refine ⟨ht, fun k => ?_⟩
  -- the books do not tell entries apart
  have hbooks := follow_simulated accept_of_enroll (hroster (.replicate k .default))
  rwa [Option.map_some, Option.map_some, inFlightRoster_account, inFlightRoster_account,
    Multiset.card_add, Multiset.card_replicate] at hbooks

/-- What drives the roster keeps the books. -/
theorem Enrolls.keeps {f : SpawnOp} (h : Enrolls f) : Keeps f := by
  intro s hI
  obtain ⟨hI', hroster⟩ := h s hI
  have hbooks := follow_simulated accept_of_enroll hroster
  rw [roster_account, roster_account] at hbooks
  exact ⟨hI', hbooks⟩

/-- **Every call keeps the books.** -/
theorem call_keeps (call : SpawnCall) : Keeps call.op := (call_enrolls call).keeps

end Books

end AetherForge.Plugin
