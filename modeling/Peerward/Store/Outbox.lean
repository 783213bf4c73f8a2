import Mathlib
import Peerward.Store.Presence

/-!
# The event outbox

Events are rows of `event_outbox`, numbered by an identity column; `event_stream_state` has one row with
the high-water mark. Writers append in transactions of their own, readers page through what is
committed, and a Relay catches up with its mesh in several statements.

An identity value is taken when the row is inserted and is not given back. The row lock of
`event_stream_state` is taken by the update that follows, and held until the transaction ends. A step
whose lock is taken waits, that is, does nothing yet.
-/

namespace Peerward.Store

open Peerward.Types (MeshId)

abbrev EventId := Types.Id

/-! ## Data

Sequences come from a counter that no rollback returns, and a row is visible once its transaction commits.
The state of the stream is a single row, locked by the transaction that updates it.
-/

/-- A row of `event_outbox`. -/
structure OutboxEvent where
  sequence : Nat
  cursor : EventId
  meshId : Option MeshId
  deriving DecidableEq

/-- The row of `event_stream_state`. -/
structure StreamState where
  highWaterSequence : Nat := 0
  highWaterCursor : Option EventId := none
  oldestRetainedSequence : Nat := 1
  deriving DecidableEq

/-- An open transaction. -/
structure Writer where
  meshId : Option MeshId
  /-- The rows it has inserted, oldest first. -/
  inserted : List OutboxEvent := []
  /-- The row whose high-water update is still to come. -/
  unmarked : Option OutboxEvent := none
  /-- Its last high-water update. -/
  marked : Option OutboxEvent := none

/-- An event stream of Control, with what it has sent. -/
structure Reader where
  start : Nat
  /-- What was committed when the stream was opened. -/
  before : List OutboxEvent
  position : Nat
  returned : List OutboxEvent := []
  deriving DecidableEq

/-- A Relay of a mesh, with the events its admission snapshots have covered. -/
structure Relay where
  meshId : MeshId
  eventSequence : Nat := 0
  covered : List OutboxEvent := []

inductive Stage where
  | started (after : Nat)
  | stateRead (after highWater : Nat) (retentionGap : Bool)
  /-- `load_admission_snapshot`, before its query. -/
  | loading
  | quiet (highWater : Nat)
  | snapshot (rows : List OutboxEvent) (highWater : Nat)

/-- The next step sets the position of the Relay. -/
def Stage.done : Stage → Bool
  | .quiet _ | .snapshot _ _ => true
  | _ => false

/-- A call of `catch_up_state` or `load_admission_snapshot` under way. -/
structure CatchUp where
  relay : Nat
  /-- What was committed when the call started. -/
  seen : List OutboxEvent
  stage : Stage

structure Outbox where
  committed : List OutboxEvent := []
  stream : StreamState := {}
  nextSequence : Nat := 1
  meshLocks : List MeshId := []
  streamLock : Option Nat := none
  writers : Nat → Option Writer := fun _ => none
  readers : Nat → Option Reader := fun _ => none
  relays : Nat → Option Relay := fun _ => none
  catchUps : Nat → Option CatchUp := fun _ => none

namespace Outbox

/-! ## Writers

A transaction inserts an event and updates the state of the stream, in two statements. The number is taken
by the first and the lock by the second, so transactions may commit in another order than they were
numbered.
-/

def setWriter (s : Outbox) (id : Nat) (writer : Option Writer) : Outbox :=
  { s with writers := Function.update s.writers id writer }

/-- A transaction starts, and locks the row of its mesh. -/
def begin (s : Outbox) (id : Nat) (meshId : Option MeshId) : Outbox :=
  if (s.writers id).isSome || meshId.any (· ∈ s.meshLocks) then s
  else { s with meshLocks := meshId.toList ++ s.meshLocks }.setWriter id (some { meshId })

/-- The insert of `append_event_with_correlation`. -/
def insert (s : Outbox) (id : Nat) (cursor : EventId) : Outbox :=
  match s.writers id with
  | none => s
  | some writer =>
    if writer.unmarked.isSome then s
    else
      let event := { sequence := s.nextSequence, cursor, meshId := writer.meshId }
      { s with nextSequence := s.nextSequence + 1 }.setWriter id
        (some { writer with inserted := writer.inserted ++ [event], unmarked := some event })

/-- The update of `append_event_with_correlation`. -/
def mark (s : Outbox) (id : Nat) : Outbox :=
  match s.writers id with
  | none => s
  | some writer =>
    match writer.unmarked with
    | none => s
    | some event =>
      if s.streamLock.all (· = id) then
        { s with streamLock := some id }.setWriter id
          (some { writer with unmarked := none, marked := some event })
      else s

/-- The end of a transaction releases its locks. -/
def close (s : Outbox) (id : Nat) (writer : Writer) : Outbox :=
  { s with
    meshLocks := s.meshLocks.filter fun meshId => writer.meshId ≠ some meshId
    streamLock := s.streamLock.filter (· ≠ id) }.setWriter id none

def StreamState.advance (stream : StreamState) : Option OutboxEvent → StreamState
  | none => stream
  | some event =>
    { stream with highWaterSequence := event.sequence, highWaterCursor := some event.cursor }

def commit (s : Outbox) (id : Nat) : Outbox :=
  match s.writers id with
  | none => s
  | some writer =>
    if writer.unmarked.isSome then s
    else { s with
      committed := s.committed ++ writer.inserted
      stream := StreamState.advance s.stream writer.marked }.close id writer

def abort (s : Outbox) (id : Nat) : Outbox :=
  match s.writers id with
  | none => s
  | some writer => s.close id writer

/-! ## Queries

Pages by sequence, over what is committed. A public cursor is resolved to a sequence first.
-/

/-- `WHERE sequence > after ... ORDER BY sequence LIMIT limit`. -/
def page (events : List OutboxEvent) (after limit : Nat) : List OutboxEvent :=
  ((events.filter (after < ·.sequence)).insertionSort (·.sequence ≤ ·.sequence)).take limit

/-- Replays every committed event after one internal sequence. -/
def eventsAfterGlobalSequence (s : Outbox) (after limit : Nat) : List OutboxEvent :=
  page s.committed after limit

/-- The event is one of a mesh, or of the whole installation. -/
def concerns (meshId : MeshId) (event : OutboxEvent) : Bool :=
  event.meshId = some meshId || event.meshId = none

/-- Replays mesh-scoped committed events after one durable numeric high-water mark. -/
def eventsAfterSequence (s : Outbox) (meshId : MeshId) (after limit : Nat) : List OutboxEvent :=
  page (s.committed.filter (concerns meshId)) after limit

/-- Resolves an optional public cursor. -/
def eventReplayStart (s : Outbox) (after : Option EventId) : Except StoreError Nat :=
  let retained := (s.committed.find? (·.sequence = s.stream.highWaterSequence)).map (·.cursor)
  if retained.isSome && retained ≠ s.stream.highWaterCursor then .error (.invalid "event high water")
  else match after with
    | none => .ok s.stream.highWaterSequence
    | some cursor =>
      match s.committed.find? (·.cursor = cursor) with
      | none => .error .eventCursorExpired
      | some event => .ok event.sequence

/-! ## Readers

A stream of Control polls for the page behind its position, which moves to the end of the page.
-/

def setReader (s : Outbox) (id : Nat) (reader : Reader) : Outbox :=
  { s with readers := Function.update s.readers id (some reader) }

/-- Opens an event stream. -/
def openReader (s : Outbox) (id : Nat) (after : Option EventId) : Outbox :=
  if (s.readers id).isSome then s
  else match s.eventReplayStart after with
    | .error _ => s
    | .ok start => s.setReader id { start, before := s.committed, position := start }

/-- One page of an event stream. -/
def poll (s : Outbox) (id : Nat) : Outbox :=
  match s.readers id with
  | none => s
  | some reader =>
    let events := s.eventsAfterGlobalSequence reader.position 500
    s.setReader id { reader with
      position := (events.getLast?.map (·.sequence)).getD reader.position
      returned := reader.returned ++ events }

/-! ## Relays

A Relay catches up with a few queries that are not one snapshot. Only the last one sets its position.
-/

def setRelay (s : Outbox) (id : Nat) (relay : Relay) : Outbox :=
  { s with relays := Function.update s.relays id (some relay) }

def startRelay (s : Outbox) (id : Nat) (meshId : MeshId) : Outbox :=
  if (s.relays id).isSome then s
  else s.setRelay id { meshId }

def setCatchUp (s : Outbox) (id : Nat) (catchUp : Option CatchUp) : Outbox :=
  { s with catchUps := Function.update s.catchUps id catchUp }

/-- A call starts: of `catch_up_state`, or of `load_admission_snapshot` alone. -/
def startCatchUp (s : Outbox) (id relay : Nat) (load : Bool) : Outbox :=
  if (s.catchUps id).isSome then s
  else match s.relays relay with
    | none => s
    | some state =>
      let stage := if load then .loading else .started state.eventSequence
      s.setCatchUp id (some { relay, seen := s.committed, stage })

/-- The first query of `event_batch_after_sequence`. -/
def readState (s : Outbox) (id : Nat) : Outbox :=
  match s.catchUps id with
  | some { relay, seen, stage := .started after } =>
    let retentionGap := after < s.stream.oldestRetainedSequence - 1
    let stage := .stateRead after s.stream.highWaterSequence retentionGap
    s.setCatchUp id (some { relay, seen, stage })
  | _ => s

/-- The second query of `event_batch_after_sequence`, and what `catch_up_state` makes of it. -/
def readEvents (s : Outbox) (id : Nat) : Outbox :=
  match s.catchUps id with
  | some { relay, seen, stage := .stateRead after highWater retentionGap } =>
    match s.relays relay with
    | none => s
    | some state =>
      let events := if retentionGap then [] else s.eventsAfterSequence state.meshId after 500
      let stage := if retentionGap || !events.isEmpty then .loading else .quiet highWater
      s.setCatchUp id (some { relay, seen, stage })
  | _ => s

/-- The repeatable-read query of `load_admission_snapshot`. -/
def readSnapshot (s : Outbox) (id : Nat) : Outbox :=
  match s.catchUps id with
  | some { relay, seen, stage := .loading } =>
    let stage := .snapshot s.committed s.stream.highWaterSequence
    s.setCatchUp id (some { relay, seen, stage })
  | _ => s

/-- The call sets the position of its Relay. -/
def finish (s : Outbox) (id : Nat) : Outbox :=
  match s.catchUps id with
  | none => s
  | some catchUp =>
    match s.relays catchUp.relay with
    | none => s
    | some relay =>
      match catchUp.stage with
      | .quiet highWater =>
        (s.setRelay catchUp.relay { relay with eventSequence := highWater }).setCatchUp id none
      | .snapshot rows highWater =>
        let covered := relay.covered ++ rows
        (s.setRelay catchUp.relay { relay with eventSequence := highWater, covered }).setCatchUp id none
      | _ => s

inductive Op where
  | begin (id : Nat) (meshId : Option MeshId)
  | insert (id : Nat) (cursor : EventId)
  | mark (id : Nat)
  | commit (id : Nat)
  | abort (id : Nat)
  | openReader (id : Nat) (after : Option EventId)
  | poll (id : Nat)
  | startRelay (id : Nat) (meshId : MeshId)
  | startCatchUp (id relay : Nat) (load : Bool)
  | readState (id : Nat)
  | readEvents (id : Nat)
  | readSnapshot (id : Nat)
  | finish (id : Nat)
  /-- A query has failed. -/
  | abandon (id : Nat)

def step (s : Outbox) : Op → Outbox
  | .begin id meshId => s.begin id meshId
  | .insert id cursor => s.insert id cursor
  | .mark id => s.mark id
  | .commit id => s.commit id
  | .abort id => s.abort id
  | .openReader id after => s.openReader id after
  | .poll id => s.poll id
  | .startRelay id meshId => s.startRelay id meshId
  | .startCatchUp id relay load => s.startCatchUp id relay load
  | .readState id => s.readState id
  | .readEvents id => s.readEvents id
  | .readSnapshot id => s.readSnapshot id
  | .finish id => s.finish id
  | .abandon id => s.setCatchUp id none

/-! ## Pages -/

variable {events : List OutboxEvent} {after limit : Nat} {event : OutboxEvent}

theorem mem_of_mem_page (h : event ∈ page events after limit) :
    event ∈ events ∧ after < event.sequence := by
  have hmem := (List.mem_insertionSort _).mp (List.mem_of_mem_take h)
  exact ⟨List.mem_of_mem_filter hmem, of_decide_eq_true (List.mem_filter.mp hmem).2⟩

/-- What a page leaves out comes after all of it. -/
theorem le_of_not_mem_page (hmem : event ∈ events) (hafter : after < event.sequence)
    (hout : event ∉ page events after limit) : ∀ e ∈ page events after limit,
      e.sequence ≤ event.sequence := by
  intro e he
  have hsorted := List.pairwise_insertionSort (r := fun a b : OutboxEvent => a.sequence ≤ b.sequence)
    (events.filter (after < ·.sequence))
  have hrest : event ∈ ((events.filter (after < ·.sequence)).insertionSort
      (·.sequence ≤ ·.sequence)).drop limit := by
    have hall : event ∈ (events.filter (after < ·.sequence)).insertionSort
        (·.sequence ≤ ·.sequence) :=
      (List.mem_insertionSort _).mpr (List.mem_filter.mpr ⟨hmem, decide_eq_true hafter⟩)
    rw [← List.take_append_drop limit ((events.filter (after < ·.sequence)).insertionSort
      (·.sequence ≤ ·.sequence))] at hall
    exact (List.mem_append.mp hall).resolve_left hout
  rw [← List.take_append_drop limit ((events.filter (after < ·.sequence)).insertionSort
    (·.sequence ≤ ·.sequence))] at hsorted
  exact (List.pairwise_append.mp hsorted).2.2 e he event hrest

/-- A page with room is not empty when something comes after. -/
theorem page_ne_nil (hmem : event ∈ events) (hafter : after < event.sequence) (hlimit : 0 < limit) :
    page events after limit ≠ [] := by
  intro hnil
  rw [page, List.take_eq_nil_iff] at hnil
  have hall : event ∈ (events.filter (after < ·.sequence)).insertionSort
      (·.sequence ≤ ·.sequence) :=
    (List.mem_insertionSort _).mpr (List.mem_filter.mpr ⟨hmem, decide_eq_true hafter⟩)
  rcases hnil with hnil | hzero
  · omega
  · rw [hzero] at hall
    cases hall

end Outbox

end Peerward.Store
