import Peerward.Relay.PresenceCache

/-!
# Presence leases in the store

The presence rows of one mesh and the counter each Peer's fencing generations come from. Rows are
ephemeral, the counter is not: a generation that was released is never allocated again. `rows` is what
the view over the primary and the standby table shows.
-/

namespace Peerward.Store

open Std Peerward.Lib
open Peerward.Types (Id PeerId RelayId)
open Peerward.Relay (PresenceRole OffsetDateTime PresenceEntry PresenceKey presenceKey)

inductive StoreError where
  | database
  | notFound
  | conflict
  | configurationOwned
  | eventCursorExpired
  | signedStateConflict (kind : String) (revision : Nat)
  | invalid (what : String)
  | poolExhausted
  | legacySchemaUnsupported
  | newerSchemaUnsupported
  deriving DecidableEq

/-- A fenced presence as a Relay asks for it. -/
structure PresenceLease where
  peerId : PeerId
  relayId : RelayId
  attachmentId : Id
  role : PresenceRole
  leaseDeadline : OffsetDateTime
  deriving DecidableEq

/-- The row of a lease. -/
def PresenceLease.row (lease : PresenceLease) (generation : Int64) : PresenceEntry where
  peerId := lease.peerId
  relayId := lease.relayId
  attachmentId := lease.attachmentId
  role := lease.role
  generation := generation
  leaseDeadline := lease.leaseDeadline

structure PresenceTables where
  rows : ExtTreeMap PresenceKey PresenceEntry := ∅
  /-- `peer_presence_generations`. -/
  generations : ExtTreeMap PeerId Int64 := ∅

namespace PresenceTables

/-- `COALESCE((SELECT max(fencing_generation) ... WHERE peer_id=$2), 0)`. -/
def maxGeneration (tables : PresenceTables) (peer : PeerId) : Int64 :=
  ((tables.rows.toList.map Prod.snd).filter (·.peerId = peer)).foldl
    (fun generation row => max generation row.generation) 0

/-- `bigint` addition: an overflow fails the statement. -/
def increment (generation : Int64) : Except StoreError Int64 :=
  if generation = Int64.maxValue then .error .database else .ok (generation + 1)

/-- The fencing generation the upsert of `acquire_presence` returns. -/
def allocate (tables : PresenceTables) (peer : PeerId) : Except StoreError Int64 := do
  let fresh ← increment (tables.maxGeneration peer)
  match tables.generations[peer]? with
  | none => .ok fresh
  | some current =>
    let next ← increment current
    .ok (max next fresh)

/-- Acquires a fenced presence role and returns the new generation. `peerEnabled` is what
`lock_enabled_peer` finds. -/
def acquirePresence (tables : PresenceTables) (peerEnabled : Bool) (now : OffsetDateTime)
    (request : PresenceLease) : Except StoreError (Int64 × PresenceTables) :=
  if !now.lt request.leaseDeadline then .error (.invalid "presence deadline")
  else if !peerEnabled then .error .notFound
  else do
    let generation ← tables.allocate request.peerId
    let row := request.row generation
    .ok (generation,
      { rows := tables.rows.insert (presenceKey row) row
        generations := tables.generations.insert request.peerId generation })

/-- The exact relay, attachment, role and generation tuple is in the table. -/
def holds (tables : PresenceTables) (request : PresenceLease) (generation : Int64) : Bool :=
  tables.rows[presenceKey (request.row generation)]?.any fun row =>
    row.relayId = request.relayId && row.attachmentId = request.attachmentId
      && row.generation = generation

/-- Renews only the exact tuple, whether or not its deadline has passed. -/
def renewPresence (tables : PresenceTables) (peerEnabled : Bool) (now : OffsetDateTime)
    (request : PresenceLease) (generation : Int64) : Except StoreError PresenceTables :=
  if !now.lt request.leaseDeadline then .error (.invalid "presence deadline")
  else if !peerEnabled then .error .notFound
  else if tables.holds request generation then
    let row := request.row generation
    .ok { tables with rows := tables.rows.insert (presenceKey row) row }
  else .error .conflict

/-- Releases only the exact tuple. -/
def releasePresence (tables : PresenceTables) (request : PresenceLease) (generation : Int64) :
    Except StoreError PresenceTables :=
  if tables.holds request generation then
    .ok { tables with rows := tables.rows.erase (presenceKey (request.row generation)) }
  else .error .conflict

/-- The presence rows of `relay_admission_snapshot`: those whose deadline is in the future. -/
def snapshot (tables : PresenceTables) (clock : OffsetDateTime) : List PresenceEntry :=
  (tables.rows.toList.map Prod.snd).filter (clock.lt ·.leaseDeadline)

/-! ## What the operations do to the tables -/

variable {tables next : PresenceTables} {request : PresenceLease} {generation : Int64}

theorem mem_snapshot {clock : OffsetDateTime} {row : PresenceEntry} :
    row ∈ tables.snapshot clock ↔
      (∃ key : PresenceKey, tables.rows[key]? = some row) ∧ clock.lt row.leaseDeadline = true := by
  rw [snapshot, List.mem_filter, List.mem_map]
  refine and_congr ⟨?_, ?_⟩ Iff.rfl
  · rintro ⟨⟨key, row'⟩, hmem, rfl⟩
    exact ⟨key, ExtTreeMap.mem_toList_iff_getElem?_eq_some.mp hmem⟩
  · rintro ⟨key, hrow⟩
    exact ⟨(key, row), ExtTreeMap.mem_toList_iff_getElem?_eq_some.mpr hrow, rfl⟩

theorem max_eq_ite (a b : Int64) : max a b = if a ≤ b then b else a := rfl

theorem lt_of_increment {a b : Int64} (h : increment a = .ok b) : a < b := by
  unfold increment at h
  split at h
  · cases h
  · rename_i hne
    cases h
    have hmax : Int64.maxValue = 9223372036854775807 := by decide
    grind

theorem le_foldl_max (rows : List PresenceEntry) (first : Int64) :
    first ≤ rows.foldl (fun generation row => max generation row.generation) first := by
  induction rows generalizing first with
  | nil => exact Int64.le_refl first
  | cons row rows ih =>
      refine Int64.le_trans ?_ (ih _)
      show first ≤ max first row.generation
      rw [max_eq_ite]
      grind

/-- A fresh generation is positive, and above the counter of its Peer. -/
theorem allocate_spec {peer : PeerId} (h : tables.allocate peer = .ok generation) :
    0 < generation ∧ ∀ counter, tables.generations[peer]? = some counter → counter < generation := by
  unfold allocate at h
  obtain ⟨fresh, hfresh, h⟩ := bind_eq_ok.mp h
  have hpositive : 0 < fresh := by
    have hbase := le_foldl_max
      ((tables.rows.toList.map Prod.snd).filter (·.peerId = peer)) 0
    have hnext := lt_of_increment hfresh
    unfold maxGeneration at hnext
    grind
  split at h
  · rename_i hnone
    cases h
    refine ⟨hpositive, fun counter hcounter => ?_⟩
    rw [hnone] at hcounter
    cases hcounter
  · rename_i current hcurrent
    obtain ⟨next, hnext, h⟩ := bind_eq_ok.mp h
    cases h
    have hless := lt_of_increment hnext
    rw [max_eq_ite]
    refine ⟨by grind, fun counter hcounter => ?_⟩
    rw [hcurrent] at hcounter
    cases hcounter
    grind

/-- What a successful acquisition has done. -/
theorem acquirePresence_ok {peerEnabled : Bool} {now : OffsetDateTime}
    (h : tables.acquirePresence peerEnabled now request = .ok (generation, next)) :
    tables.allocate request.peerId = .ok generation ∧
      next = { rows := tables.rows.insert (presenceKey (request.row generation))
                  (request.row generation)
               generations := tables.generations.insert request.peerId generation } := by
  unfold acquirePresence at h
  split at h
  · cases h
  · split at h
    · cases h
    · obtain ⟨allocated, hallocated, h⟩ := bind_eq_ok.mp h
      cases h
      exact ⟨hallocated, rfl⟩

/-- The row the exact tuple is in. -/
theorem holds_iff : tables.holds request generation = true ↔
    ∃ row, tables.rows[presenceKey (request.row generation)]? = some row ∧
      row.relayId = request.relayId ∧ row.attachmentId = request.attachmentId ∧
      row.generation = generation := by
  simp [holds, Option.any_eq_true, and_assoc]

theorem renewPresence_ok {peerEnabled : Bool} {now : OffsetDateTime}
    (h : tables.renewPresence peerEnabled now request generation = .ok next) :
    tables.holds request generation = true ∧
      next = { tables with rows := tables.rows.insert (presenceKey (request.row generation))
                              (request.row generation) } := by
  unfold renewPresence at h
  split at h
  · cases h
  · split at h
    · cases h
    · split at h
      · rename_i hholds
        cases h
        exact ⟨hholds, rfl⟩
      · cases h

theorem releasePresence_ok (h : tables.releasePresence request generation = .ok next) :
    next = { tables with rows := tables.rows.erase (presenceKey (request.row generation)) } := by
  unfold releasePresence at h
  split at h
  · cases h
    rfl
  · cases h

end PresenceTables

end Peerward.Store
