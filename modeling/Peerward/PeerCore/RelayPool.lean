import Mathlib

/-!
# The Relay pool

A Peer keeps up to three Relay links. Each slot of the pool asks for a connection when it is due,
learns whether the connection came up, and later that the link failed or should be replaced. The
answers arrive in any order, so requests and generations are numbered and a late answer is refused.

`poll`, `complete`, `failed` and `refresh` change the pool also where they return an error, so each
returns its result and the new pool. A slot index fits a `u8`, since there are at most three slots.
-/

namespace Peerward.PeerCore

namespace RelayPool

def MAX_RELAY_SLOTS : Nat := 3

/-- One more than the largest `u64`. -/
def COUNTER_BOUND : Nat := 2 ^ 64

structure RelayConnectRequest where
  requestId : Nat
  slot : Nat
  endpointIndex : Nat
  candidateGeneration : Nat
  replacingGeneration : Option Nat
  deriving DecidableEq

structure RelayRoute where
  slot : Nat
  generation : Nat
  deriving DecidableEq

structure RelayConnectCommit where
  slot : Nat
  generation : Nat
  replacedGeneration : Option Nat
  primary : Option RelayRoute
  deriving DecidableEq

inductive RelayPoolError where
  | invalidConfiguration
  | stale
  | exhausted
  deriving DecidableEq

structure PendingConnect where
  requestId : Nat
  endpointIndex : Nat
  candidateGeneration : Nat
  replacingGeneration : Option Nat
  deriving DecidableEq

structure RelaySlot where
  endpointCount : Nat
  nextEndpoint : Nat := 0
  activeEndpoint : Option Nat := none
  activeGeneration : Option Nat := none
  pending : Option PendingConnect := none
  dueMillis : Option Nat := some 0
  attempt : Nat := 0
  deriving DecidableEq

/-- `RuntimeOrchestrator::reconnect_delay`, in milliseconds. -/
def reconnectDelay (attempt entropy : Nat) : Nat :=
  min (250 * 2 ^ min attempt 6) 10000 + entropy % 251

namespace RelaySlot

/-- Nothing to do for this slot: a connection is under way, or the next one is not due. -/
def waits (slot : RelaySlot) (now : Nat) : Bool :=
  slot.pending.isSome || slot.dueMillis.all (now < ·)

/-- The connection a due slot starts. -/
def connect (slot : RelaySlot) (requestId generation : Nat) : PendingConnect where
  requestId := requestId
  endpointIndex := slot.nextEndpoint
  candidateGeneration := generation
  replacingGeneration := slot.activeGeneration

def issue (slot : RelaySlot) (requestId generation : Nat) : RelaySlot :=
  { slot with pending := some (slot.connect requestId generation), dueMillis := none }

def scheduleRetry (slot : RelaySlot) (index endpointIndex now : Nat) : RelaySlot :=
  { slot with
    -- retry backoff saturates; carrier rotation must continue indefinitely
    attempt := min (slot.attempt + 1) 6
    nextEndpoint := (endpointIndex + 1) % slot.endpointCount
    dueMillis := some (min (now + reconnectDelay slot.attempt (index <<< 32 ||| endpointIndex))
      (COUNTER_BOUND - 1)) }

end RelaySlot

/-- The connection as its caller sees it. -/
def PendingConnect.request (pending : PendingConnect) (index : Nat) : RelayConnectRequest where
  requestId := pending.requestId
  slot := index
  endpointIndex := pending.endpointIndex
  candidateGeneration := pending.candidateGeneration
  replacingGeneration := pending.replacingGeneration

/-- Rust owner for Relay selection, promotion, replacement and retry timing. -/
structure RelayPoolOrchestrator where
  slots : List RelaySlot
  nextRequestId : Nat := 1
  nextGeneration : Nat := 1
  closed : Bool := false

namespace RelayPoolOrchestrator

def new (endpointCounts : List Nat) : Except RelayPoolError RelayPoolOrchestrator :=
  if endpointCounts.isEmpty || endpointCounts.length > MAX_RELAY_SLOTS || endpointCounts.contains 0
  then .error .invalidConfiguration
  else .ok { slots := endpointCounts.map fun endpointCount => { endpointCount } }

def updateSlot (pool : RelayPoolOrchestrator) (index : Nat) (change : RelaySlot → RelaySlot) :
    RelayPoolOrchestrator :=
  { pool with slots := pool.slots.modify index change }

/-- The turn of the loop of `poll` for one slot. -/
def pollSlot (now : Nat)
    (state : RelayPoolOrchestrator × Except RelayPoolError (List RelayConnectRequest))
    (index : Nat) : RelayPoolOrchestrator × Except RelayPoolError (List RelayConnectRequest) :=
  match state, state.1.slots[index]? with
  | (pool, .ok requests), some slot =>
    if slot.waits now then (pool, .ok requests)
    else if pool.nextRequestId + 1 = COUNTER_BOUND then (pool, .error .exhausted)
    else if pool.nextGeneration + 1 = COUNTER_BOUND then
      ({ pool with nextRequestId := pool.nextRequestId + 1 }, .error .exhausted)
    else
      let pending := slot.connect pool.nextRequestId pool.nextGeneration
      ({ pool.updateSlot index (·.issue pool.nextRequestId pool.nextGeneration) with
          nextRequestId := pool.nextRequestId + 1
          nextGeneration := pool.nextGeneration + 1 },
        .ok (requests ++ [pending.request index]))
  | _, _ => state

def poll (pool : RelayPoolOrchestrator) (now : Nat) :
    RelayPoolOrchestrator × Except RelayPoolError (List RelayConnectRequest) :=
  if pool.closed then (pool, .ok [])
  else (List.range pool.slots.length).foldl (pollSlot now) (pool, .ok [])

/-- The route of the first slot with a link. -/
def primary (pool : RelayPoolOrchestrator) : Option RelayRoute :=
  pool.slots.zipIdx.findSome? fun (slot, index) =>
    slot.activeGeneration.map fun generation => { slot := index, generation }

/-- The slot that waits for this request. -/
def findPending (pool : RelayPoolOrchestrator) (requestId : Nat) : Option (Nat × PendingConnect) :=
  pool.slots.zipIdx.findSome? fun (slot, index) =>
    (slot.pending.filter (·.requestId = requestId)).map (index, ·)

def activeGeneration (pool : RelayPoolOrchestrator) (index : Nat) : Option Nat :=
  pool.slots[index]?.bind (·.activeGeneration)

def complete (pool : RelayPoolOrchestrator) (requestId : Nat) (success : Bool) (now : Nat) :
    RelayPoolOrchestrator × Except RelayPoolError (Option RelayConnectCommit) :=
  match pool.findPending requestId with
  | none => (pool, .error .stale)
  | some (index, pending) =>
    let cleared := pool.updateSlot index ({ · with pending := none })
    if !success then
      (cleared.updateSlot index (·.scheduleRetry index pending.endpointIndex now), .ok none)
    else if pool.closed || pool.activeGeneration index ≠ pending.replacingGeneration then
      (cleared, .error .stale)
    else
      let committed := cleared.updateSlot index ({ · with
        activeGeneration := some pending.candidateGeneration
        activeEndpoint := some pending.endpointIndex
        attempt := 0
        dueMillis := none })
      (committed, .ok (some {
        slot := index
        generation := pending.candidateGeneration
        replacedGeneration := pool.activeGeneration index
        primary := committed.primary }))

def failed (pool : RelayPoolOrchestrator) (route : RelayRoute) (now : Nat) :
    RelayPoolOrchestrator × Except RelayPoolError (Option RelayRoute) :=
  match pool.slots[route.slot]? with
  | none => (pool, .error .stale)
  | some slot =>
    if slot.activeGeneration ≠ some route.generation then (pool, .error .stale)
    else
      let cleared := pool.updateSlot route.slot ({ · with
        activeGeneration := none, pending := none, activeEndpoint := none })
      match slot.activeEndpoint with
      | none => (cleared, .error .stale)
      | some endpointIndex =>
        let retrying := cleared.updateSlot route.slot
          (·.scheduleRetry route.slot endpointIndex now)
        (retrying, .ok retrying.primary)

def refresh (pool : RelayPoolOrchestrator) (route : RelayRoute) (now : Nat) :
    RelayPoolOrchestrator × Except RelayPoolError Unit :=
  match pool.slots[route.slot]? with
  | none => (pool, .error .stale)
  | some slot =>
    if slot.activeGeneration ≠ some route.generation then (pool, .error .stale)
    else if slot.pending.isNone then
      (pool.updateSlot route.slot ({ · with
        dueMillis := some now, attempt := 0, nextEndpoint := 0 }), .ok ())
    else (pool, .ok ())

def active (pool : RelayPoolOrchestrator) : List RelayRoute :=
  pool.slots.zipIdx.filterMap fun (slot, index) =>
    slot.activeGeneration.map fun generation => { slot := index, generation }

/-- Fences inbound delivery to the exact current primary generation. -/
def acceptsInbound (pool : RelayPoolOrchestrator) (route : RelayRoute) : Bool :=
  !pool.closed && pool.primary = some route

def close (pool : RelayPoolOrchestrator) : RelayPoolOrchestrator × List RelayRoute :=
  ({ pool with
      closed := true
      slots := pool.slots.map ({ · with
        pending := none, activeEndpoint := none, dueMillis := none, activeGeneration := none }) },
    pool.active)

/-! ## Steps -/

inductive Op where
  | poll (now : Nat)
  | complete (requestId : Nat) (success : Bool) (now : Nat)
  | failed (route : RelayRoute) (now : Nat)
  | refresh (route : RelayRoute) (now : Nat)
  | close
  deriving DecidableEq

def step (pool : RelayPoolOrchestrator) : Op → RelayPoolOrchestrator
  | .poll now => (pool.poll now).1
  | .complete requestId success now => (pool.complete requestId success now).1
  | .failed route now => (pool.failed route now).1
  | .refresh route now => (pool.refresh route now).1
  | .close => pool.close.1

end RelayPoolOrchestrator

end RelayPool

end Peerward.PeerCore
