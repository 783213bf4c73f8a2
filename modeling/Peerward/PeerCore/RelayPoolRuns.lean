import Peerward.Lib.Run
import Peerward.PeerCore.RelayPool

/-!
# The Relay pool over whole runs

Every slot of an open pool has something to wait for, and a request that is still pending replaces
exactly the link the slot has, so its success is committed. Requests and generations are numbered in
the order they are handed out, and a number is used up once.
-/

namespace Peerward.PeerCore.RelayPool

open Peerward.Lib

namespace RelayPoolOrchestrator

variable {pool pool' : RelayPoolOrchestrator} {index other now : Nat} {slot : RelaySlot}
  {pending : PendingConnect} {change : RelaySlot → RelaySlot}

@[simp] theorem updateSlot_closed : (pool.updateSlot index change).closed = pool.closed := rfl

@[simp] theorem updateSlot_nextRequestId :
    (pool.updateSlot index change).nextRequestId = pool.nextRequestId := rfl

@[simp] theorem updateSlot_nextGeneration :
    (pool.updateSlot index change).nextGeneration = pool.nextGeneration := rfl

theorem updateSlot_slots (other : Nat) : (pool.updateSlot index change).slots[other]? =
    if index = other then pool.slots[other]?.map change else pool.slots[other]? := by
  rw [updateSlot, List.getElem?_modify]
  split <;> simp

theorem updateSlot_updateSlot {change' : RelaySlot → RelaySlot} :
    (pool.updateSlot index change).updateSlot index change' =
      pool.updateSlot index fun slot => change' (change slot) := by
  simp only [updateSlot, List.modify_modify_eq]
  rfl

/-! ## Pending requests -/

/-- The slot waits for the answer to this request. -/
def Pending (pool : RelayPoolOrchestrator) (index : Nat) (pending : PendingConnect) : Prop :=
  ∃ slot, pool.slots[index]? = some slot ∧ slot.pending = some pending

theorem findPending_eq_some {requestId : Nat} (h : pool.findPending requestId = some (index, pending)) :
    ∃ slot, pool.slots[index]? = some slot ∧ slot.pending = some pending ∧
      pending.requestId = requestId := by
  obtain ⟨⟨slot, index'⟩, hmem, hfind⟩ := List.exists_of_findSome?_eq_some h
  obtain ⟨found, hfound, heq⟩ := Option.map_eq_some_iff.mp hfind
  cases heq
  rw [Option.filter_eq_some_iff] at hfound
  exact ⟨slot, List.mem_zipIdx_iff_getElem?.mp hmem, hfound.1, by simpa using hfound.2⟩

theorem exists_findPending (h : pool.Pending index pending) :
    ∃ found, pool.findPending pending.requestId = some found := by
  obtain ⟨slot, hslot, hpending⟩ := h
  refine Option.isSome_iff_exists.mp ?_
  rw [findPending, List.findSome?_isSome_iff]
  exact ⟨(slot, index), List.mem_zipIdx_iff_getElem?.mpr hslot, by simp [hpending]⟩

/-- Every slot has something to wait for, and nothing in it is out of date. -/
structure SlotOk (closed : Bool) (slot : RelaySlot) : Prop where
  alive : closed = false →
    slot.pending.isSome ∨ slot.dueMillis.isSome ∨ slot.activeGeneration.isSome
  replacing : ∀ pending, slot.pending = some pending →
    pending.replacingGeneration = slot.activeGeneration
  endpoint : slot.activeEndpoint.isSome = slot.activeGeneration.isSome
  idle : closed = true → slot.pending = none ∧ slot.activeGeneration = none

namespace SlotOk

variable {closed : Bool} {requestId generation endpointIndex : Nat}

theorem initial (endpointCount : Nat) : SlotOk false { endpointCount } where
  alive _ := .inr (.inl rfl)
  replacing _ h := nomatch h
  endpoint := rfl
  idle h := nomatch h

theorem issue (h : SlotOk false slot) : SlotOk false (slot.issue requestId generation) where
  alive _ := .inl rfl
  replacing _ hpending := by
    cases hpending
    rfl
  endpoint := h.endpoint
  idle hclosed := nomatch hclosed

theorem connectFailed (h : SlotOk closed slot) (hopen : closed = false) :
    SlotOk closed (({ slot with pending := none } : RelaySlot).scheduleRetry index endpointIndex now) where
  alive _ := .inr (.inl rfl)
  replacing _ hpending := nomatch hpending
  endpoint := h.endpoint
  idle hclosed := by
    rw [hopen] at hclosed
    cases hclosed

theorem connected (hopen : closed = false) :
    SlotOk closed { slot with
      pending := none
      activeGeneration := some generation
      activeEndpoint := some endpointIndex
      attempt := 0
      dueMillis := none } where
  alive _ := .inr (.inr rfl)
  replacing _ hpending := nomatch hpending
  endpoint := rfl
  idle hclosed := by
    rw [hopen] at hclosed
    cases hclosed

theorem linkFailed (hopen : closed = false) :
    SlotOk closed (({ slot with
      activeGeneration := none, pending := none, activeEndpoint := none } :
        RelaySlot).scheduleRetry index endpointIndex now) where
  alive _ := .inr (.inl rfl)
  replacing _ hpending := nomatch hpending
  endpoint := rfl
  idle hclosed := by
    rw [hopen] at hclosed
    cases hclosed

theorem refreshed (h : SlotOk closed slot) :
    SlotOk closed { slot with dueMillis := some now, attempt := 0, nextEndpoint := 0 } where
  alive _ := .inr (.inl rfl)
  replacing := h.replacing
  endpoint := h.endpoint
  idle := h.idle

theorem shut : SlotOk true { slot with
    pending := none, activeEndpoint := none, dueMillis := none, activeGeneration := none } where
  alive h := nomatch h
  replacing _ hpending := nomatch hpending
  endpoint := rfl
  idle _ := ⟨rfl, rfl⟩

end SlotOk

/-- The invariant of every slot. -/
def SlotsOk (pool : RelayPoolOrchestrator) : Prop :=
  ∀ (index : Nat) (slot : RelaySlot), pool.slots[index]? = some slot → SlotOk pool.closed slot

theorem SlotsOk.updateSlot (h : pool.SlotsOk) (hslot : pool.slots[index]? = some slot)
    (hnew : SlotOk pool.closed (change slot)) : (pool.updateSlot index change).SlotsOk := by
  intro other slot' hslot'
  rw [updateSlot_slots] at hslot'
  split at hslot'
  · next heq =>
      subst heq
      rw [hslot, Option.map_some, Option.some.injEq] at hslot'
      exact hslot' ▸ hnew
  · exact h other slot' hslot'

/-! ## What one step does

One slot changes in an operation, and in one of a few ways. The other slots, and the counters, are as
before.
-/

/-- The slot after a connection failed, came up, a link failed, and a link is to be replaced. -/
def retried (index endpointIndex now : Nat) (slot : RelaySlot) : RelaySlot :=
  ({ slot with pending := none } : RelaySlot).scheduleRetry index endpointIndex now

def connected (pending : PendingConnect) (slot : RelaySlot) : RelaySlot :=
  { slot with
    pending := none
    activeGeneration := some pending.candidateGeneration
    activeEndpoint := some pending.endpointIndex
    attempt := 0
    dueMillis := none }

def dropped (index endpointIndex now : Nat) (slot : RelaySlot) : RelaySlot :=
  ({ slot with activeGeneration := none, pending := none, activeEndpoint := none } :
    RelaySlot).scheduleRetry index endpointIndex now

def refreshed (now : Nat) (slot : RelaySlot) : RelaySlot :=
  { slot with dueMillis := some now, attempt := 0, nextEndpoint := 0 }

variable {requestId : Nat} {success : Bool} {route : RelayRoute}

/-- An answer is refused, schedules a retry or is committed. -/
theorem complete_cases (h : pool.SlotsOk) (requestId : Nat) (success : Bool) (now : Nat) :
    (pool.findPending requestId = none ∧
        pool.complete requestId success now = (pool, .error .stale)) ∨
      ∃ index slot pending, pool.slots[index]? = some slot ∧ slot.pending = some pending ∧
        pending.requestId = requestId ∧ pool.closed = false ∧
        ((success = false ∧ pool.complete requestId success now =
            (pool.updateSlot index (retried index pending.endpointIndex now), .ok none)) ∨
          (success = true ∧ ∃ commit, pool.complete requestId success now =
              (pool.updateSlot index (connected pending), .ok (some commit)) ∧
            commit.slot = index ∧ commit.generation = pending.candidateGeneration)) := by
  cases hfind : pool.findPending requestId with
  | none => exact .inl ⟨rfl, by simp [complete, hfind]⟩
  | some found =>
      obtain ⟨index, pending⟩ := found
      obtain ⟨slot, hslot, hpending, hid⟩ := findPending_eq_some hfind
      have hok := h index slot hslot
      have hopen : pool.closed = false := by
        by_contra hclosed
        have := (hok.idle (by simpa using hclosed)).1
        rw [hpending] at this
        cases this
      have hactive : pool.activeGeneration index = pending.replacingGeneration := by
        rw [activeGeneration, hslot, Option.bind_some, hok.replacing pending hpending]
      refine .inr ⟨index, slot, pending, hslot, hpending, hid, hopen, ?_⟩
      cases success with
      | false =>
          refine .inl ⟨rfl, ?_⟩
          simp only [complete, hfind, Bool.not_false, if_true, updateSlot_updateSlot]
          rfl
      | true =>
          refine .inr ⟨rfl, ⟨index, pending.candidateGeneration, pending.replacingGeneration,
            (pool.updateSlot index (connected pending)).primary⟩, ?_, rfl, rfl⟩
          simp only [complete, hfind, Bool.not_true, hopen, hactive, Bool.false_or, ne_eq,
            not_true_eq_false, decide_false, updateSlot_updateSlot]
          rfl

/-- A report of a failed link is refused, or takes the link out and schedules a retry. -/
theorem failed_cases (h : pool.SlotsOk) (route : RelayRoute) (now : Nat) :
    (pool.activeGeneration route.slot ≠ some route.generation ∧ (pool.failed route now).1 = pool) ∨
      ∃ slot endpointIndex, pool.slots[route.slot]? = some slot ∧ pool.closed = false ∧
        slot.activeGeneration = some route.generation ∧ slot.activeEndpoint = some endpointIndex ∧
        (pool.failed route now).1 = pool.updateSlot route.slot (dropped route.slot endpointIndex now) := by
  cases hslot : pool.slots[route.slot]? with
  | none => exact .inl (by simp [failed, activeGeneration, hslot])
  | some slot =>
      have hok := h route.slot slot hslot
      by_cases hactive : slot.activeGeneration = some route.generation
      · right
        have hopen : pool.closed = false := by
          by_contra hclosed
          have := (hok.idle (by simpa using hclosed)).2
          rw [hactive] at this
          cases this
        obtain ⟨endpointIndex, hendpoint⟩ : ∃ endpointIndex, slot.activeEndpoint = some endpointIndex :=
          Option.isSome_iff_exists.mp (by rw [hok.endpoint, hactive]; rfl)
        refine ⟨slot, endpointIndex, rfl, hopen, hactive, hendpoint, ?_⟩
        simp only [failed, hslot, hactive, ne_eq, not_true_eq_false, if_false, hendpoint,
          updateSlot_updateSlot]
        rfl
      · exact .inl (by simp [failed, activeGeneration, hslot, hactive])

/-- The refresh takes effect: the link is the current one and no replacement is under way. -/
def Refreshes (pool : RelayPoolOrchestrator) (route : RelayRoute) (slot : RelaySlot) : Prop :=
  pool.slots[route.slot]? = some slot ∧ slot.activeGeneration = some route.generation ∧
    slot.pending = none

theorem refresh_cases (pool : RelayPoolOrchestrator) (route : RelayRoute) (now : Nat) :
    (pool.refresh route now).1 = pool ∨
      ∃ slot, pool.Refreshes route slot ∧
        (pool.refresh route now).1 = pool.updateSlot route.slot (refreshed now) := by
  cases hslot : pool.slots[route.slot]? with
  | none => exact .inl (by simp [refresh, hslot])
  | some slot =>
      by_cases hactive : slot.activeGeneration = some route.generation
      · cases hpending : slot.pending with
        | none =>
            refine .inr ⟨slot, ⟨hslot, hactive, hpending⟩, ?_⟩
            simp only [refresh, hslot, hactive, hpending, ne_eq, not_true_eq_false, if_false,
              Option.isNone_none, if_true]
            rfl
        | some pending => exact .inl (by simp [refresh, hslot, hactive, hpending])
      · exact .inl (by simp [refresh, hslot, hactive])

/-! ## Polling

The loop of `poll` goes over the slots and gives each one that is due a request, with the next numbers. A
loop that fails has run out of numbers.
-/

/-- The pool after a due slot was given a request. -/
def issueAt (pool : RelayPoolOrchestrator) (index : Nat) : RelayPoolOrchestrator :=
  { pool.updateSlot index (·.issue pool.nextRequestId pool.nextGeneration) with
    nextRequestId := pool.nextRequestId + 1
    nextGeneration := pool.nextGeneration + 1 }

variable {requests requests' : List RelayConnectRequest}

/-- A turn of the loop that succeeds: the slot waits, or it is given a request. -/
theorem pollSlot_cases
    (h : pollSlot now (pool, .ok requests) index = (pool', .ok requests')) :
    (pool' = pool ∧ requests' = requests ∧
        ∀ slot, pool.slots[index]? = some slot → slot.waits now = true) ∨
      ∃ slot, pool.slots[index]? = some slot ∧ slot.waits now = false ∧ pool' = pool.issueAt index ∧
        requests' = requests ++
          [(slot.connect pool.nextRequestId pool.nextGeneration).request index] := by
  unfold pollSlot at h
  cases hslot : pool.slots[index]? with
  | none =>
      simp only [hslot] at h
      cases h
      exact .inl ⟨rfl, rfl, nofun⟩
  | some slot =>
      simp only [hslot] at h
      split at h
      · next hwaits =>
          cases h
          refine .inl ⟨rfl, rfl, ?_⟩
          rintro _ ⟨rfl⟩
          exact hwaits
      · next hdue =>
          split at h
          · cases h
          · split at h
            · cases h
            · cases h
              exact .inr ⟨slot, rfl, by simpa using hdue, rfl, rfl⟩

theorem pollSlot_error {failure : RelayPoolError} (index : Nat) :
    pollSlot now (pool, .error failure) index = (pool, .error failure) := by
  simp [pollSlot]

/-- The last turn of a loop that succeeds came after turns that succeeded. -/
theorem foldl_pollSlot_concat {indices : List Nat}
    (h : (indices ++ [index]).foldl (pollSlot now) (pool, .ok []) = (pool', .ok requests')) :
    ∃ middle requests, indices.foldl (pollSlot now) (pool, .ok []) = (middle, .ok requests) ∧
      pollSlot now (middle, .ok requests) index = (pool', .ok requests') := by
  rw [List.foldl_append, List.foldl_cons, List.foldl_nil] at h
  cases hloop : indices.foldl (pollSlot now) (pool, .ok []) with
  | mk middle result =>
      rw [hloop] at h
      cases result with
      | error failure =>
          rw [pollSlot_error] at h
          cases h
      | ok requests => exact ⟨middle, requests, rfl, h⟩

/-- What the loop keeps when a due slot is given a request. -/
theorem foldl_pollSlot_induction {P : RelayPoolOrchestrator → Prop} {indices : List Nat}
    (hok : indices.foldl (pollSlot now) (pool, .ok []) = (pool', .ok requests)) (init : P pool)
    (issue : ∀ pool index slot, P pool → pool.slots[index]? = some slot →
      slot.waits now = false → P (pool.issueAt index)) : P pool' := by
  induction indices using List.reverseRecOn generalizing pool' requests with
  | nil =>
      cases hok
      exact init
  | append_singleton indices index ih =>
      obtain ⟨middle, before, hloop, hturn⟩ := foldl_pollSlot_concat hok
      rcases pollSlot_cases hturn with ⟨rfl, -, -⟩ | ⟨slot, hslot, hdue, rfl, -⟩
      · exact ih hloop
      · exact issue middle index slot (ih hloop) hslot hdue

/-- What each request keeps, a successful `poll` keeps. -/
theorem poll_induction {P : RelayPoolOrchestrator → Prop} (hok : pool.poll now = (pool', .ok requests))
    (init : P pool)
    (issue : ∀ pool index slot, P pool → pool.closed = false → pool.slots[index]? = some slot →
      slot.waits now = false → P (pool.issueAt index)) : P pool' := by
  unfold poll at hok
  split at hok
  · cases hok
    exact init
  · next hopen =>
      have hboth : P pool' ∧ pool'.closed = false :=
        foldl_pollSlot_induction (P := fun pool => P pool ∧ pool.closed = false) hok
          ⟨init, by simpa using hopen⟩ fun pool index slot hP hslot hdue =>
            ⟨issue pool index slot hP.1 hP.2 hslot hdue, hP.2⟩
      exact hboth.1

/-- What a `poll` does to one slot. -/
def Polled (slot : RelaySlot) (index now : Nat) (after : Option RelaySlot)
    (requests : List RelayConnectRequest) : Prop :=
  (slot.waits now = true ∧ after = some slot ∧ ∀ request ∈ requests, request.slot ≠ index) ∨
    (slot.waits now = false ∧ ∃ requestId generation,
      after = some (slot.issue requestId generation) ∧
      (slot.connect requestId generation).request index ∈ requests ∧
      ∀ request ∈ requests, request.slot = index →
        request = (slot.connect requestId generation).request index)

/-- A later request is for another slot. -/
theorem Polled.append {after : Option RelaySlot} {request : RelayConnectRequest}
    (h : Polled slot index now after requests) (hne : request.slot ≠ index) :
    Polled slot index now after (requests ++ [request]) := by
  rcases h with ⟨hwaits, hafter, hnone⟩ | ⟨hdue, requestId, generation, hafter, hmem, hunique⟩
  · refine .inl ⟨hwaits, hafter, fun r hr => ?_⟩
    rcases List.mem_append.mp hr with hr | hr
    · exact hnone r hr
    · rwa [List.mem_singleton.mp hr]
  · refine .inr ⟨hdue, requestId, generation, hafter, List.mem_append_left _ hmem, fun r hr hslot => ?_⟩
    rcases List.mem_append.mp hr with hr | hr
    · exact hunique r hr hslot
    · rw [List.mem_singleton.mp hr] at hslot
      exact absurd hslot hne

/-- A run, with the links that came up and the requests that were answered. -/
structure Trace where
  pool : RelayPoolOrchestrator
  commits : List RelayRoute := []
  completed : List Nat := []

/-- The link that an operation brings up. -/
def committed (pool : RelayPoolOrchestrator) : Op → List RelayRoute
  | .complete requestId success now =>
    match (pool.complete requestId success now).2 with
    | .ok (some commit) => [⟨commit.slot, commit.generation⟩]
    | _ => []
  | _ => []

/-- The request that an operation answers. -/
def answered (pool : RelayPoolOrchestrator) : Op → List Nat
  | .complete requestId success now =>
    match (pool.complete requestId success now).2 with
    | .ok _ => [requestId]
    | .error _ => []
  | _ => []

def Trace.step (trace : Trace) (op : Op) : Trace where
  pool := trace.pool.step op
  commits := trace.commits ++ trace.pool.committed op
  completed := trace.completed ++ trace.pool.answered op

structure Numbered (trace : Trace) : Prop where
  /-- A pending request has numbers of its own, later than those that were used up. -/
  requestId : ∀ index pending, trace.pool.Pending index pending →
    pending.requestId < trace.pool.nextRequestId ∧ pending.requestId ∉ trace.completed
  generation : ∀ index pending, trace.pool.Pending index pending →
    pending.candidateGeneration < trace.pool.nextGeneration ∧
      ∀ commit ∈ trace.commits, commit.generation ≠ pending.candidateGeneration ∧
        (commit.slot = index → commit.generation < pending.candidateGeneration)
  unique : ∀ first second pending pending', trace.pool.Pending first pending →
    trace.pool.Pending second pending' →
    pending.requestId = pending'.requestId ∨
      pending.candidateGeneration = pending'.candidateGeneration → first = second
  completed : trace.completed.Nodup ∧ ∀ id ∈ trace.completed, id < trace.pool.nextRequestId
  commits : (trace.commits.map (·.generation)).Nodup ∧
    (∀ commit ∈ trace.commits, commit.generation < trace.pool.nextGeneration) ∧
    trace.commits.Pairwise fun a b => a.slot = b.slot → a.generation < b.generation

theorem pending_updateSlot : (pool.updateSlot index change).Pending other pending ↔
    if index = other then ∃ slot, pool.slots[index]? = some slot ∧ (change slot).pending = some pending
    else pool.Pending other pending := by
  unfold Pending
  rw [updateSlot_slots]
  split
  · next heq =>
      subst heq
      constructor
      · rintro ⟨slot, hslot, hpending⟩
        obtain ⟨old, hold, rfl⟩ := Option.map_eq_some_iff.mp hslot
        exact ⟨old, hold, hpending⟩
      · rintro ⟨slot, hslot, hpending⟩
        exact ⟨change slot, by rw [hslot, Option.map_some], hpending⟩
  · rfl

/-- A change that leaves no request in the slot leaves those of the others. -/
theorem pending_of_cleared (hclears : ∀ slot, (change slot).pending = none)
    (h : (pool.updateSlot index change).Pending other pending) :
    index ≠ other ∧ pool.Pending other pending := by
  rw [pending_updateSlot] at h
  split at h
  · obtain ⟨slot, -, hpending⟩ := h
    rw [hclears] at hpending
    cases hpending
  · next hne => exact ⟨hne, h⟩

variable {trace : Trace}

/-- Requests may disappear. -/
theorem Numbered.forget (h : Numbered trace) (hid : pool'.nextRequestId = trace.pool.nextRequestId)
    (hgeneration : pool'.nextGeneration = trace.pool.nextGeneration)
    (hpending : ∀ index pending, pool'.Pending index pending → trace.pool.Pending index pending) :
    Numbered { trace with pool := pool' } where
  requestId index pending hp := by
    simpa only [hid] using h.requestId index pending (hpending _ _ hp)
  generation index pending hp := by
    simpa only [hgeneration] using h.generation index pending (hpending _ _ hp)
  unique first second pending pending' hp hp' :=
    h.unique first second pending pending' (hpending _ _ hp) (hpending _ _ hp')
  completed := by simpa only [hid] using h.completed
  commits := by simpa only [hgeneration] using h.commits

theorem Numbered.issue (h : Numbered trace) (index : Nat) :
    Numbered { trace with pool := trace.pool.issueAt index } := by
  have hpending : ∀ other pending, (trace.pool.issueAt index).Pending other pending →
      (other = index ∧ pending.requestId = trace.pool.nextRequestId ∧
        pending.candidateGeneration = trace.pool.nextGeneration) ∨
      trace.pool.Pending other pending := by
    intro other pending hp
    replace hp : (trace.pool.updateSlot index
      (·.issue trace.pool.nextRequestId trace.pool.nextGeneration)).Pending other pending := hp
    rw [pending_updateSlot] at hp
    split at hp
    · next heq =>
        obtain ⟨slot, -, hissued⟩ := hp
        cases hissued
        exact .inl ⟨heq.symm, rfl, rfl⟩
    · exact .inr hp
  constructor
  · intro other pending hp
    rcases hpending other pending hp with ⟨-, hid, -⟩ | hp
    · refine ⟨by rw [hid]; exact Nat.lt_succ_self _, fun hmem => ?_⟩
      exact absurd (h.completed.2 _ hmem) (by rw [hid]; exact Nat.lt_irrefl _)
    · obtain ⟨hlt, hnew⟩ := h.requestId other pending hp
      exact ⟨Nat.lt_succ_of_lt hlt, hnew⟩
  · intro other pending hp
    rcases hpending other pending hp with ⟨-, -, hgeneration⟩ | hp
    · rw [hgeneration]
      refine ⟨Nat.lt_succ_self _, fun commit hcommit => ?_⟩
      have hlt := h.commits.2.1 commit hcommit
      exact ⟨hlt.ne, fun _ => hlt⟩
    · obtain ⟨hlt, hnew⟩ := h.generation other pending hp
      exact ⟨Nat.lt_succ_of_lt hlt, hnew⟩
  · intro first second pending pending' hp hp' hsame
    rcases hpending first pending hp with ⟨hfirst, hid, hgen⟩ | hold <;>
      rcases hpending second pending' hp' with ⟨hsecond, hid', hgen'⟩ | hold'
    · rw [hfirst, hsecond]
    · have hlt := (h.requestId second pending' hold').1
      have hlt' := (h.generation second pending' hold').1
      omega
    · have hlt := (h.requestId first pending hold).1
      have hlt' := (h.generation first pending hold).1
      omega
    · exact h.unique first second pending pending' hold hold' hsame
  · exact ⟨h.completed.1, fun id hid => Nat.lt_succ_of_lt (h.completed.2 id hid)⟩
  · exact ⟨h.commits.1, fun c hc => Nat.lt_succ_of_lt (h.commits.2.1 c hc), h.commits.2.2⟩

/-- An answer uses the numbers of its request up, the generation only if the link came up. -/
theorem Numbered.answer (change : RelaySlot → RelaySlot) (h : Numbered trace)
    (hp : trace.pool.Pending index pending) (hclears : ∀ slot, (change slot).pending = none) {commits : List RelayRoute}
    (hcommits : commits = [] ∨ commits = [⟨index, pending.candidateGeneration⟩]) :
    Numbered {
      pool := trace.pool.updateSlot index change
      commits := trace.commits ++ commits
      completed := trace.completed ++ [pending.requestId] } := by
  -- the answered request is gone; the ones of other slots have other numbers
  obtain ⟨hid, hnew⟩ := h.requestId index pending hp
  obtain ⟨hgen, hlater⟩ := h.generation index pending hp
  constructor
  · intro other pending' hp'
    obtain ⟨hne, hold⟩ := pending_of_cleared hclears hp'
    obtain ⟨hlt, hmem⟩ := h.requestId other pending' hold
    refine ⟨hlt, fun hin => ?_⟩
    rcases List.mem_append.mp hin with hin | hin
    · exact hmem hin
    · exact hne (h.unique _ _ _ _ hp hold (.inl (List.mem_singleton.mp hin).symm))
  · intro other pending' hp'
    obtain ⟨hne, hold⟩ := pending_of_cleared hclears hp'
    obtain ⟨hlt, hbefore⟩ := h.generation other pending' hold
    refine ⟨hlt, fun commit hcommit => ?_⟩
    rcases List.mem_append.mp hcommit with hcommit | hcommit
    · exact hbefore commit hcommit
    · rcases hcommits with rfl | rfl
      · cases hcommit
      · rw [List.mem_singleton.mp hcommit]
        exact ⟨fun heq => hne (h.unique _ _ _ _ hp hold (.inr heq)), fun heq => absurd heq hne⟩
  · intro first second p p' hp₁ hp₂
    exact h.unique first second p p' (pending_of_cleared hclears hp₁).2
      (pending_of_cleared hclears hp₂).2
  · refine ⟨?_, fun id hin => ?_⟩
    · rw [List.nodup_append]
      refine ⟨h.completed.1, List.nodup_singleton _, fun a ha b hb => ?_⟩
      rintro rfl
      rw [List.mem_singleton.mp hb] at ha
      exact hnew ha
    · rcases List.mem_append.mp hin with hin | hin
      · exact h.completed.2 id hin
      · rwa [List.mem_singleton.mp hin]
  · rcases hcommits with rfl | rfl
    · rw [List.append_nil]
      exact h.commits
    · refine ⟨?_, fun commit hcommit => ?_, ?_⟩
      · -- the new link is later than every link before it
        rw [List.map_append, List.nodup_append]
        refine ⟨h.commits.1, List.nodup_singleton _, fun a ha b hb => ?_⟩
        rintro rfl
        obtain ⟨commit, hcommit, heq⟩ := List.mem_map.mp ha
        rw [List.map_singleton, List.mem_singleton] at hb
        exact (hlater commit hcommit).1 (heq.trans hb)
      · rcases List.mem_append.mp hcommit with hcommit | hcommit
        · exact h.commits.2.1 commit hcommit
        · rwa [List.mem_singleton.mp hcommit]
      · rw [List.pairwise_append]
        refine ⟨h.commits.2.2, List.pairwise_singleton _ _, fun a ha b hb hslot => ?_⟩
        rw [List.mem_singleton.mp hb] at hslot ⊢
        exact (hlater a ha).2 hslot

/-! ## Links that are up

A slot gets a link from a success that is committed, and from nothing else. With the numbering above
this makes the generation of a pending request later than that of the link it is to replace.
-/

/-- Every link of the pool was committed. -/
def Committed (trace : Trace) : Prop :=
  ∀ index generation, trace.pool.activeGeneration index = some generation →
    ⟨index, generation⟩ ∈ trace.commits

theorem activeGeneration_updateSlot : (pool.updateSlot index change).activeGeneration other =
    if index = other then pool.slots[other]?.bind fun slot => (change slot).activeGeneration
    else pool.activeGeneration other := by
  unfold activeGeneration
  rw [updateSlot_slots]
  split
  · rw [Option.bind_map]
    rfl
  · rfl

/-- The change leaves the slot's link alone, or takes it away. -/
theorem activeGeneration_of_kept (change : RelaySlot → RelaySlot) {generation : Nat}
    (hkept : ∀ slot, (change slot).activeGeneration = slot.activeGeneration ∨
      (change slot).activeGeneration = none)
    (h : (pool.updateSlot index change).activeGeneration other = some generation) :
    pool.activeGeneration other = some generation := by
  rw [activeGeneration_updateSlot] at h
  split at h
  · obtain ⟨slot, hslot, hgeneration⟩ := Option.bind_eq_some_iff.mp h
    rw [activeGeneration, hslot, Option.bind_some, ← hgeneration]
    rcases hkept slot with heq | hnone
    · exact heq.symm
    · rw [hnone] at hgeneration
      cases hgeneration
  · exact h

theorem Committed.forget (h : Committed trace) (hkept : ∀ index generation,
      pool'.activeGeneration index = some generation →
        trace.pool.activeGeneration index = some generation) :
    Committed { trace with pool := pool' } :=
  fun index generation hactive => h index generation (hkept index generation hactive)

/-! ## Runs

The parts above make the invariant of a run. What it excludes is that a request is older than the link it is
to replace.
-/

structure Inv (trace : Trace) : Prop where
  slots : trace.pool.SlotsOk
  numbered : Numbered trace
  committed : Committed trace

/-- A `poll` finds numbers left for its requests. -/
def Suffices (pool : RelayPoolOrchestrator) : Op → Prop
  | .poll now => ∃ requests, (pool.poll now).2 = .ok requests
  | _ => True

theorem Inv.initial {endpointCounts : List Nat} (h : new endpointCounts = .ok pool) :
    Inv { pool } := by
  unfold new at h
  split at h
  · cases h
  · cases h
    have hfresh : ∀ (index : Nat) (slot : RelaySlot),
        (endpointCounts.map fun endpointCount => ({ endpointCount } : RelaySlot))[index]? = some slot →
          ∃ endpointCount, slot = { endpointCount } := by
      intro index slot hslot
      rw [List.getElem?_map] at hslot
      obtain ⟨endpointCount, -, rfl⟩ := Option.map_eq_some_iff.mp hslot
      exact ⟨endpointCount, rfl⟩
    have hnone : ∀ index pending, ¬ Pending { slots := endpointCounts.map fun endpointCount =>
        ({ endpointCount } : RelaySlot) } index pending := by
      rintro index pending ⟨slot, hslot, hpending⟩
      obtain ⟨endpointCount, rfl⟩ := hfresh index slot hslot
      cases hpending
    refine ⟨fun index slot hslot => ?_, ?_, fun index generation hactive => ?_⟩
    · obtain ⟨endpointCount, rfl⟩ := hfresh index slot hslot
      exact SlotOk.initial endpointCount
    · exact {
        requestId := fun index pending hp => absurd hp (hnone index pending)
        generation := fun index pending hp => absurd hp (hnone index pending)
        unique := fun first _ pending _ hp => absurd hp (hnone first pending)
        completed := ⟨List.nodup_nil, nofun⟩
        commits := ⟨List.nodup_nil, nofun, List.Pairwise.nil⟩ }
    · obtain ⟨slot, hslot, hgeneration⟩ := Option.bind_eq_some_iff.mp hactive
      obtain ⟨endpointCount, rfl⟩ := hfresh index slot hslot
      cases hgeneration

theorem SlotsOk.step (h : pool.SlotsOk) (op : Op) (hop : Suffices pool op) : (pool.step op).SlotsOk := by
  cases op with
  | poll now =>
      obtain ⟨requests, hrequests⟩ := hop
      refine (poll_induction (P := SlotsOk) (Prod.ext rfl hrequests) h ?_ :)
      intro pool index slot hok hopen hslot hdue
      refine (SlotsOk.updateSlot hok hslot ?_ :)
      have hslotOk := hok index slot hslot
      rw [hopen] at hslotOk ⊢
      exact hslotOk.issue
  | complete requestId success now =>
      rcases complete_cases h requestId success now with
        ⟨-, hstale⟩ | ⟨index, slot, pending, hslot, -, -, hopen, ⟨-, heq⟩ | ⟨-, commit, heq, -⟩⟩
      · simpa only [RelayPoolOrchestrator.step, hstale] using h
      · rw [RelayPoolOrchestrator.step, heq]
        exact h.updateSlot hslot ((h index slot hslot).connectFailed hopen)
      · rw [RelayPoolOrchestrator.step, heq]
        exact h.updateSlot hslot (SlotOk.connected hopen)
  | failed route now =>
      rcases failed_cases h route now with ⟨-, heq⟩ | ⟨slot, endpointIndex, hslot, hopen, -, -, heq⟩
      · rwa [RelayPoolOrchestrator.step, heq]
      · rw [RelayPoolOrchestrator.step, heq]
        exact h.updateSlot hslot (SlotOk.linkFailed hopen)
  | refresh route now =>
      rcases refresh_cases pool route now with heq | ⟨slot, ⟨hslot, -, -⟩, heq⟩
      · rwa [RelayPoolOrchestrator.step, heq]
      · rw [RelayPoolOrchestrator.step, heq]
        exact h.updateSlot hslot (h route.slot slot hslot).refreshed
  | close =>
      intro index slot hslot
      simp only [RelayPoolOrchestrator.step, close, List.getElem?_map] at hslot
      obtain ⟨old, -, rfl⟩ := Option.map_eq_some_iff.mp hslot
      exact SlotOk.shut

/-- An operation that answers no request. -/
theorem Trace.step_of_silent {op : Op} (hcommitted : trace.pool.committed op = [])
    (hanswered : trace.pool.answered op = []) :
    trace.step op = { trace with pool := trace.pool.step op } := by
  simp only [Trace.step, hcommitted, hanswered, List.append_nil]

theorem Numbered.complete (hslots : trace.pool.SlotsOk) (h : Numbered trace) (requestId : Nat)
    (success : Bool) (now : Nat) : Numbered (trace.step (.complete requestId success now)) := by
  rcases complete_cases hslots requestId success now with
    ⟨-, hstale⟩ | ⟨index, slot, pending, hslot, hpending, rfl, -, ⟨-, heq⟩ | ⟨-, commit, heq, hindex, hgen⟩⟩
  · rw [Trace.step_of_silent (by simp only [committed, hstale]) (by simp only [answered, hstale])]
    simp only [RelayPoolOrchestrator.step, hstale]
    exact h
  · have hanswer := h.answer (retried index pending.endpointIndex now)
      ⟨slot, hslot, hpending⟩ (fun _ => rfl) (.inl rfl)
    simpa only [Trace.step, RelayPoolOrchestrator.step, committed, answered, heq] using hanswer
  · have hanswer := h.answer (connected pending) ⟨slot, hslot, hpending⟩
      (fun _ => rfl) (.inr rfl)
    simpa only [Trace.step, RelayPoolOrchestrator.step, committed, answered, heq, hindex, hgen]
      using hanswer

theorem Numbered.step (hslots : trace.pool.SlotsOk) (h : Numbered trace) (op : Op)
    (hop : Suffices trace.pool op) : Numbered (trace.step op) := by
  cases op with
  | complete requestId success now => exact h.complete hslots requestId success now
  | poll now =>
      obtain ⟨requests, hrequests⟩ := hop
      rw [Trace.step_of_silent rfl rfl]
      refine (poll_induction (P := fun pool => Numbered { trace with pool }) (Prod.ext rfl hrequests)
        h ?_ :)
      intro pool index slot hnumbered _ _ _
      exact hnumbered.issue index
  | failed route now =>
      rw [Trace.step_of_silent rfl rfl]
      rcases failed_cases hslots route now with ⟨-, heq⟩ | ⟨slot, endpointIndex, -, -, -, -, heq⟩
      · rw [RelayPoolOrchestrator.step, heq]
        exact h
      · rw [RelayPoolOrchestrator.step, heq]
        exact h.forget rfl rfl fun other pending hp => (pending_of_cleared (fun _ => rfl) hp).2
  | refresh route now =>
      rw [Trace.step_of_silent rfl rfl]
      rcases refresh_cases trace.pool route now with heq | ⟨slot, -, heq⟩
      · rw [RelayPoolOrchestrator.step, heq]
        exact h
      · rw [RelayPoolOrchestrator.step, heq]
        refine h.forget rfl rfl fun other pending hp => ?_
        rw [pending_updateSlot] at hp
        split at hp
        · next hsame => exact hsame ▸ hp
        · exact hp
  | close =>
      rw [Trace.step_of_silent rfl rfl]
      refine h.forget rfl rfl fun other pending hp => ?_
      obtain ⟨slot, hslot, hpending⟩ := hp
      simp only [RelayPoolOrchestrator.step, close, List.getElem?_map] at hslot
      obtain ⟨old, -, rfl⟩ := Option.map_eq_some_iff.mp hslot
      cases hpending

theorem Committed.complete (hslots : trace.pool.SlotsOk) (h : Committed trace) (requestId : Nat)
    (success : Bool) (now : Nat) : Committed (trace.step (.complete requestId success now)) := by
  rcases complete_cases hslots requestId success now with
    ⟨-, hstale⟩ | ⟨index, slot, pending, hslot, -, rfl, -, ⟨-, heq⟩ | ⟨-, commit, heq, rfl, hgen⟩⟩
  · rw [Trace.step_of_silent (by simp only [committed, hstale]) (by simp only [answered, hstale])]
    simp only [RelayPoolOrchestrator.step, hstale]
    exact h
  · intro other generation hactive
    simp only [Trace.step, RelayPoolOrchestrator.step, heq] at hactive
    exact List.mem_append_left _ (h other generation
      (activeGeneration_of_kept (retried index pending.endpointIndex now) (fun _ => .inl rfl) hactive))
  · intro other generation hactive
    simp only [Trace.step, RelayPoolOrchestrator.step, committed, heq] at hactive ⊢
    rw [activeGeneration_updateSlot] at hactive
    split at hactive
    · next hsame =>
        rw [← hsame, hslot, Option.bind_some] at hactive
        cases hactive
        rw [hgen, hsame]
        exact List.mem_append_right _ (List.mem_singleton_self _)
    · exact List.mem_append_left _ (h other generation hactive)

theorem Committed.step (hslots : trace.pool.SlotsOk) (h : Committed trace) (op : Op)
    (hop : Suffices trace.pool op) : Committed (trace.step op) := by
  cases op with
  | complete requestId success now => exact h.complete hslots requestId success now
  | poll now =>
      obtain ⟨requests, hrequests⟩ := hop
      rw [Trace.step_of_silent rfl rfl]
      refine (poll_induction (P := fun pool => Committed { trace with pool }) (Prod.ext rfl hrequests)
        h ?_ :)
      intro pool index slot hcommitted _ _ _
      exact hcommitted.forget fun _ _ hactive => activeGeneration_of_kept
        (·.issue pool.nextRequestId pool.nextGeneration) (fun _ => .inl rfl) hactive
  | failed route now =>
      rw [Trace.step_of_silent rfl rfl]
      rcases failed_cases hslots route now with ⟨-, heq⟩ | ⟨_, _, -, -, -, -, heq⟩ <;>
        rw [RelayPoolOrchestrator.step, heq]
      · exact h
      · exact h.forget fun _ _ hactive => activeGeneration_of_kept _ (fun _ => .inr rfl) hactive
  | refresh route now =>
      rw [Trace.step_of_silent rfl rfl]
      rcases refresh_cases trace.pool route now with heq | ⟨_, -, heq⟩ <;>
        rw [RelayPoolOrchestrator.step, heq]
      · exact h
      · exact h.forget fun _ _ hactive =>
          activeGeneration_of_kept (refreshed now) (fun _ => .inl rfl) hactive
  | close =>
      rw [Trace.step_of_silent rfl rfl]
      refine h.forget fun index generation hactive => ?_
      obtain ⟨slot, hslot, hgeneration⟩ := Option.bind_eq_some_iff.mp hactive
      simp only [RelayPoolOrchestrator.step, close, List.getElem?_map] at hslot
      obtain ⟨old, -, rfl⟩ := Option.map_eq_some_iff.mp hslot
      cases hgeneration

/-- A success for a request that is still pending is committed. -/
theorem SlotsOk.commits (h : pool.SlotsOk) (hnumbered : ∀ first second pending pending',
      pool.Pending first pending → pool.Pending second pending' →
      pending.requestId = pending'.requestId → first = second)
    (hp : pool.Pending index pending) (now : Nat) :
    ∃ commit, (pool.complete pending.requestId true now).2 = .ok (some commit) ∧
      commit.slot = index ∧ commit.generation = pending.candidateGeneration := by
  rcases complete_cases h pending.requestId true now with
    ⟨hnone, -⟩ | ⟨other, slot, found, hslot, hfound, hid, -, ⟨hfalse, -⟩ | ⟨-, commit, heq, hslot', hgen⟩⟩
  · obtain ⟨found, hfound⟩ := exists_findPending hp
    rw [hnone] at hfound
    cases hfound
  · cases hfalse
  · obtain rfl := hnumbered _ _ _ _ ⟨slot, hslot, hfound⟩ hp hid
    obtain ⟨slot', hslot'', hpending⟩ := hp
    obtain rfl : slot = slot' := Option.some.inj (hslot.symm.trans hslot'')
    obtain rfl : found = pending := Option.some.inj (hfound.symm.trans hpending)
    exact ⟨commit, by rw [heq], hslot', hgen⟩

end RelayPoolOrchestrator

end Peerward.PeerCore.RelayPool
