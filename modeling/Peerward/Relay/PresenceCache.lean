import Peerward.Relay.Protocol

/-!
# The presence cache

The authenticated in-memory routing and fencing view that every Relay of a mesh keeps: the live
presence of each key, the largest generation seen for it, and when it last changed. `revision` counts
observations; a `u64` of them is not reached.
-/

namespace Peerward.Relay

open Std Peerward.Lib Peerward.Wire
open Peerward.Types (Id MeshId PeerId RelayId)

/-- The key of a presence: a Peer has one primary, and one standby at each Relay. -/
structure PresenceKey where
  peerId : PeerId
  role : PresenceRole
  relayId : Option RelayId
  deriving DecidableEq

namespace PresenceKey

def roleRank : PresenceRole → Nat
  | .primary => 0
  | .standby => 1

def relayRank (relay : Option RelayId) : Nat := relay.elim 0 (·.value.toNat + 1)

def cmp : PresenceKey → PresenceKey → Ordering :=
  compareLex (compareOn peerId) <|
    compareLex (compareOn fun key => roleRank key.role) (compareOn fun key => relayRank key.relayId)

instance : Ord PresenceKey := ⟨cmp⟩

instance : TransOrd PresenceKey := inferInstanceAs (TransCmp (compareLex _ _))

theorem relayRank_inj {a b : Option RelayId} (h : relayRank a = relayRank b) : a = b := by
  cases a with
  | none => cases b with
    | none => rfl
    | some b => exact absurd h (Nat.succ_ne_zero _).symm
  | some a => cases b with
    | none => exact absurd h (Nat.succ_ne_zero _)
    | some b =>
        obtain ⟨a, ha⟩ := a
        obtain ⟨b, hb⟩ := b
        have hvalue : a = b := BitVec.eq_of_toNat_eq (Nat.succ.inj h)
        subst hvalue
        rfl

instance : LawfulEqOrd PresenceKey where
  eq_of_compare := by
    rintro ⟨peer, role, relay⟩ ⟨peer', role', relay'⟩ h
    replace h : cmp _ _ = .eq := h
    simp only [cmp, compareLex_eq_eq, compareOn, LawfulEqOrd.compare_eq_iff_eq] at h
    obtain ⟨rfl, hrole, hrelay⟩ := h
    cases relayRank_inj hrelay
    cases role <;> cases role' <;> first | rfl | cases hrole

end PresenceKey

def presenceKey (entry : PresenceEntry) : PresenceKey where
  peerId := entry.peerId
  role := entry.role
  relayId := if entry.role = .standby then some entry.relayId else none

structure PresenceCache where
  entries : ExtTreeMap PresenceKey PresenceEntry := ∅
  generations : ExtTreeMap PresenceKey Int64 := ∅
  updates : ExtTreeMap PresenceKey Nat := ∅
  revision : Nat := 0

namespace PresenceCache

/-- The announcement reuses the generation of the entry held with other fields, or with an earlier
deadline. -/
def conflicts (current : PresenceEntry) (update : PresenceAnnouncement) : Bool :=
  let entry := update.entry
  entry.generation = current.generation
    && (entry.relayId ≠ current.relayId || entry.attachmentId ≠ current.attachmentId
      || entry.role ≠ current.role
      || (!update.released
        && entry.leaseDeadline.unixTimestamp < current.leaseDeadline.unixTimestamp))

/-- The tables after an announcement that counts. -/
def record (cache : PresenceCache) (update : PresenceAnnouncement) : PresenceCache :=
  let key := presenceKey update.entry
  { entries := if update.released then cache.entries.erase key else cache.entries.insert key update.entry
    generations := cache.generations.insert key update.entry.generation
    updates := cache.updates.insert key (cache.revision + 1)
    revision := cache.revision + 1 }

def observe (cache : PresenceCache) (authenticatedRelay : RelayId) (update : PresenceAnnouncement) :
    Except RelayError (Bool × PresenceCache) :=
  let entry := update.entry
  let key := presenceKey entry
  if entry.relayId ≠ authenticatedRelay || entry.generation ≤ 0 then .error .staleFence
  else if cache.generations[key]?.any (entry.generation < ·) then .ok (false, cache)
  else match cache.entries[key]? with
    | some current =>
      if conflicts current update then .error .staleFence
      else .ok (cache.generations[key]?.all (· < entry.generation) || update.released,
        cache.record update)
    | none =>
      if cache.generations[key]? = some entry.generation then .ok (false, cache)
      else .ok (cache.generations[key]?.all (· < entry.generation) || update.released,
        cache.record update)

def observeLocal (cache : PresenceCache) (entry : PresenceEntry) :
    Except RelayError (Bool × PresenceCache) :=
  cache.observe entry.relayId { entry, released := false }

def releaseLocal (cache : PresenceCache) (entry : PresenceEntry) :
    Except RelayError (Bool × PresenceCache) :=
  cache.observe entry.relayId { entry, released := true }

/-- The key has changed since a revision. -/
def touchedSince (cache : PresenceCache) (started : Nat) (key : PresenceKey) : Bool :=
  cache.updates[key]?.any (started < ·)

/-- The entries a snapshot leaves: those it lists, and those that changed after its query started. -/
def retain (cache : PresenceCache) (rows : List PresenceEntry) (started : Nat) : PresenceCache :=
  { cache with
    entries := cache.entries.filter fun key _ =>
      rows.any (presenceKey · = key) || cache.touchedSince started key }

/-- The cache knows better than the row of a snapshot. -/
def outdated (cache : PresenceCache) (started : Nat) (row : PresenceEntry) : Bool :=
  (cache.touchedSince started (presenceKey row)
      && cache.generations[presenceKey row]?.any (row.generation ≤ ·))
    || cache.entries[presenceKey row]?.any fun current =>
      current.generation = row.generation && row.leaseDeadline.lt current.leaseDeadline

/-- The loop over the rows. An error leaves what the rows before it have done. -/
def observeRows (started : Nat) (cache : PresenceCache) :
    List PresenceEntry → Except RelayError Unit × PresenceCache
  | [] => (.ok (), cache)
  | row :: rows =>
    if cache.outdated started row then cache.observeRows started rows
    else match cache.observeLocal row with
      | .error error => (.error error, cache)
      | .ok (_, next) => next.observeRows started rows

/-- Installs the presence rows of a snapshot whose query started at a revision of this cache. -/
def installSnapshot (cache : PresenceCache) (rows : List PresenceEntry) (started : Nat) :
    Except RelayError Unit × PresenceCache :=
  (cache.retain rows started).observeRows started rows

def announcementsOwnedBy (cache : PresenceCache) (relayId : RelayId) : List PresenceAnnouncement :=
  ((cache.entries.toList.map Prod.snd).filter (·.relayId = relayId)).map fun entry =>
    { entry, released := false }

/-- Entries sit under their own key, with the generation recorded for it. -/
structure Valid (cache : PresenceCache) : Prop where
  keyed : ∀ (key : PresenceKey) (entry : PresenceEntry), cache.entries[key]? = some entry →
    key = presenceKey entry ∧ cache.generations[key]? = some entry.generation
  positive : ∀ (key : PresenceKey) (generation : Int64),
    cache.generations[key]? = some generation → 0 < generation

variable {cache next : PresenceCache} {relay : RelayId} {update : PresenceAnnouncement}

theorem valid_empty : Valid {} := ⟨by simp, by simp⟩

/-- An announcement is refused, leaves the cache, or is recorded. -/
theorem observe_cases {advanced : Bool}
    (h : cache.observe relay update = .ok (advanced, next)) :
    (next = cache ∧ advanced = false) ∨
      (next = cache.record update ∧ 0 < update.entry.generation) := by
  unfold observe at h
  dsimp only at h
  split at h
  · cases h
  · rename_i haccepted
    have hpositive : 0 < update.entry.generation := by
      simp only [Bool.or_eq_true, decide_eq_true_eq, not_or, Int64.not_le] at haccepted
      exact haccepted.2
    split at h
    · cases h
      exact .inl ⟨rfl, rfl⟩
    · split at h
      · split at h
        · cases h
        · cases h
          exact .inr ⟨rfl, hpositive⟩
      · split at h
        · cases h
          exact .inl ⟨rfl, rfl⟩
        · cases h
          exact .inr ⟨rfl, hpositive⟩

theorem any_eq_true {α : Type} {p : α → Bool} {o : Option α} (h : o.any p = true) :
    ∃ a, o = some a ∧ p a = true := by
  cases o with
  | none => cases h
  | some a => exact ⟨a, rfl, h⟩

/-- An announcement is passed over for a larger generation, or for its own when the entry is gone. What
is recorded has the largest generation seen, and does not bring a generation back. -/
theorem observe_ok {advanced : Bool} (h : cache.observe relay update = .ok (advanced, next)) :
    (next = cache ∧ ∃ generation, cache.generations[presenceKey update.entry]? = some generation ∧
        (update.entry.generation < generation ∨ update.entry.generation = generation ∧
          cache.entries[presenceKey update.entry]? = none)) ∨
      (next = cache.record update ∧
        (∀ generation, cache.generations[presenceKey update.entry]? = some generation →
          generation ≤ update.entry.generation) ∧
        (cache.entries[presenceKey update.entry]? = none →
          cache.generations[presenceKey update.entry]? ≠ some update.entry.generation)) := by
  unfold observe at h
  dsimp only at h
  split at h
  · cases h
  split at h
  · rename_i hbehind
    cases h
    obtain ⟨generation, hgeneration, hless⟩ := any_eq_true hbehind
    exact .inl ⟨rfl, generation, hgeneration, .inl (of_decide_eq_true hless)⟩
  · rename_i hnotBehind
    have hreached : ∀ generation,
        cache.generations[presenceKey update.entry]? = some generation →
          generation ≤ update.entry.generation := by
      intro generation hgeneration
      rw [hgeneration] at hnotBehind
      simp only [Option.any_some, decide_eq_true_eq] at hnotBehind
      exact Int64.not_lt.mp hnotBehind
    split at h
    · rename_i current hcurrent
      split at h
      · cases h
      · cases h
        refine .inr ⟨rfl, hreached, fun hnone => ?_⟩
        rw [hcurrent] at hnone
        cases hnone
    · rename_i hnone
      split at h
      · rename_i hsame
        cases h
        exact .inl ⟨rfl, _, hsame, .inr ⟨rfl, hnone⟩⟩
      · rename_i hfresh
        cases h
        exact .inr ⟨rfl, hreached, fun _ => hfresh⟩

/-- An announcement from its own Relay is only refused for the entry held. -/
theorem observe_accepts (hrelay : update.entry.relayId = relay) (hpositive : 0 < update.entry.generation)
    (hfits : ∀ current, cache.entries[presenceKey update.entry]? = some current →
      conflicts current update = false) :
    ∃ advanced next, cache.observe relay update = .ok (advanced, next) := by
  unfold observe
  dsimp only
  rw [if_neg (by simp [hrelay, Int64.not_le, hpositive])]
  split
  · exact ⟨_, _, rfl⟩
  · split
    · rename_i current hcurrent
      rw [hfits current hcurrent]
      exact ⟨_, _, rfl⟩
    · split
      · exact ⟨_, _, rfl⟩
      · exact ⟨_, _, rfl⟩

theorem record_entries (cache : PresenceCache) (update : PresenceAnnouncement) (key : PresenceKey) :
    (cache.record update).entries[key]? = if presenceKey update.entry = key then
      (if update.released then none else some update.entry) else cache.entries[key]? := by
  unfold record
  dsimp only
  cases update.released
  · simp only [Bool.false_eq_true, if_false, ExtTreeMap.getElem?_insert,
      LawfulEqOrd.compare_eq_iff_eq]
  · simp only [if_true, ExtTreeMap.getElem?_erase, LawfulEqOrd.compare_eq_iff_eq]

theorem record_generations (cache : PresenceCache) (update : PresenceAnnouncement)
    (key : PresenceKey) :
    (cache.record update).generations[key]? = if presenceKey update.entry = key then
      some update.entry.generation else cache.generations[key]? := by
  simp only [record, ExtTreeMap.getElem?_insert, LawfulEqOrd.compare_eq_iff_eq]

/-- Observing keeps the cache valid. -/
theorem Valid.observe {advanced : Bool} (hvalid : cache.Valid)
    (h : cache.observe relay update = .ok (advanced, next)) : next.Valid := by
  rcases observe_cases h with ⟨rfl, -⟩ | ⟨rfl, hpositive⟩
  · exact hvalid
  · refine ⟨fun key entry hentry => ?_, fun key generation hgeneration => ?_⟩
    · rw [record_entries] at hentry
      rw [record_generations]
      split at hentry
      · rename_i hkey
        rw [if_pos hkey]
        split at hentry
        · cases hentry
        · cases hentry
          exact ⟨hkey.symm, rfl⟩
      · rename_i hkey
        rw [if_neg hkey]
        exact hvalid.keyed key entry hentry
    · rw [record_generations] at hgeneration
      split at hgeneration
      · cases hgeneration
        exact hpositive
      · exact hvalid.positive key generation hgeneration

end PresenceCache

end Peerward.Relay
