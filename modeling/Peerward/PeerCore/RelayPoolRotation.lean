import Peerward.PeerCore.RelayPoolRuns

/-!
# Which endpoint a slot tries next

A retry goes to the endpoint after the one that failed. Between two requests of a slot that is not
refreshed this is the endpoint after the first request's, except where the link that the request was
to replace fails meanwhile: rotation then goes on from that link's endpoint.
-/

namespace Peerward.PeerCore.RelayPool.RelayPoolOrchestrator

open Peerward.Lib

variable {pool pool' : RelayPoolOrchestrator} {index now : Nat} {slot first : RelaySlot}
  {ops : List Op} {op : Op} {lost lost' : Prop}

/-! ## One slot between two requests

Four things can have become of a request: it is pending, it came up, its endpoint failed, or the link
that it was to replace failed. Only the last is reported as the failure of a link that was up before
the request, since the link that the request brings up has a generation of its own.
-/

/-- The slot after a request to `endpoint`, made while its state was `first`. `lost` says that the
link it then had has failed since. -/
structure Follows (first : RelaySlot) (endpoint generation : Nat) (lost : Prop) (slot : RelaySlot) :
    Prop where
  count : slot.endpointCount = first.endpointCount
  fresh : first.activeGeneration ≠ some generation
  phase :
    -- the request is pending
    (¬ lost ∧ (∃ pending, slot.pending = some pending ∧ pending.endpointIndex = endpoint ∧
        pending.candidateGeneration = generation) ∧
      slot.activeGeneration = first.activeGeneration ∧ slot.activeEndpoint = first.activeEndpoint) ∨
    -- it came up
    (¬ lost ∧ slot.pending = none ∧ slot.dueMillis = none ∧
      slot.activeGeneration = some generation ∧ slot.activeEndpoint = some endpoint) ∨
    -- its endpoint failed, before or after it came up
    (¬ lost ∧ slot.pending = none ∧ slot.nextEndpoint = (endpoint + 1) % first.endpointCount ∧
      (slot.activeGeneration = none ∨ (slot.activeGeneration = first.activeGeneration ∧
        slot.activeEndpoint = first.activeEndpoint))) ∨
    -- the link it was to replace failed
    (lost ∧ slot.pending = none ∧ slot.activeGeneration = none ∧
      ∃ linkEndpoint, first.activeEndpoint = some linkEndpoint ∧
        slot.nextEndpoint = (linkEndpoint + 1) % first.endpointCount)

namespace Follows

variable {endpoint requestId generation reported : Nat} {pending : PendingConnect}

theorem issue (slot : RelaySlot) (hfresh : slot.activeGeneration ≠ some generation) :
    Follows slot slot.nextEndpoint generation False (slot.issue requestId generation) where
  count := rfl
  fresh := hfresh
  phase := .inl ⟨id, ⟨_, rfl, rfl, rfl⟩, rfl, rfl⟩

theorem congr (h : Follows first endpoint generation lost slot) (hlost : lost' ↔ lost) :
    Follows first endpoint generation lost' slot where
  count := h.count
  fresh := h.fresh
  phase := by
    rw [hlost]
    exact h.phase

theorem retried (h : Follows first endpoint generation lost slot)
    (hpending : slot.pending = some pending) :
    Follows first endpoint generation lost (retried index pending.endpointIndex now slot) where
  count := h.count
  fresh := h.fresh
  phase := by
    rcases h.phase with ⟨hlost, ⟨issued, hissued, hendpoint, -⟩, hactive⟩ |
      ⟨-, hnone, -⟩ | ⟨-, hnone, -⟩ | ⟨-, hnone, -⟩
    · obtain rfl : pending = issued := Option.some.inj (hpending.symm.trans hissued)
      refine .inr (.inr (.inl ⟨hlost, rfl, ?_, .inr hactive⟩))
      show (pending.endpointIndex + 1) % slot.endpointCount = _
      rw [hendpoint, h.count]
    all_goals
      rw [hpending] at hnone
      cases hnone

theorem connected (h : Follows first endpoint generation lost slot)
    (hpending : slot.pending = some pending) :
    Follows first endpoint generation lost (connected pending slot) where
  count := h.count
  fresh := h.fresh
  phase := by
    rcases h.phase with ⟨hlost, ⟨issued, hissued, hendpoint, hgeneration⟩, -⟩ |
      ⟨-, hnone, -⟩ | ⟨-, hnone, -⟩ | ⟨-, hnone, -⟩
    · obtain rfl : pending = issued := Option.some.inj (hpending.symm.trans hissued)
      exact .inr (.inl ⟨hlost, rfl, rfl, congrArg some hgeneration, congrArg some hendpoint⟩)
    all_goals
      rw [hpending] at hnone
      cases hnone

/-- The link that fails is the one the slot had at the request, or the one it brought up. -/
theorem dropped {linkEndpoint : Nat} (h : Follows first endpoint generation lost slot)
    (hactive : slot.activeGeneration = some reported)
    (hendpoint : slot.activeEndpoint = some linkEndpoint)
    (hlost : lost' ↔ lost ∨ first.activeGeneration = some reported) :
    Follows first endpoint generation lost' (dropped index linkEndpoint now slot) where
  count := h.count
  fresh := h.fresh
  phase := by
    have hnext : (RelayPoolOrchestrator.dropped index linkEndpoint now slot).nextEndpoint =
        (linkEndpoint + 1) % first.endpointCount := by
      show (linkEndpoint + 1) % slot.endpointCount = _
      rw [h.count]
    rcases h.phase with ⟨-, -, hgen, hend⟩ | ⟨hkept, -, -, hgen, hend⟩ |
      ⟨-, -, -, hnone | ⟨hgen, hend⟩⟩ | ⟨-, -, hnone, -⟩
    · exact .inr (.inr (.inr ⟨hlost.mpr (.inr (hgen ▸ hactive)), rfl, rfl, linkEndpoint,
        hend ▸ hendpoint, hnext⟩))
    · -- the link that the request brought up is a later one
      obtain rfl : linkEndpoint = endpoint := Option.some.inj (hendpoint.symm.trans hend)
      have hother : first.activeGeneration ≠ some reported := by
        rw [← hactive, hgen]
        exact h.fresh
      exact .inr (.inr (.inl ⟨fun hnow => (hlost.mp hnow).elim hkept hother, rfl, hnext, .inl rfl⟩))
    · rw [hactive] at hnone
      cases hnone
    · exact .inr (.inr (.inr ⟨hlost.mpr (.inr (hgen ▸ hactive)), rfl, rfl, linkEndpoint,
        hend ▸ hendpoint, hnext⟩))
    · rw [hactive] at hnone
      cases hnone

/-- A slot that is due again has had a failure since. -/
theorem next (h : Follows first endpoint generation lost slot) (hdue : slot.waits now = false) :
    (¬ lost → slot.nextEndpoint = (endpoint + 1) % first.endpointCount) ∧
      (lost → ∃ linkEndpoint, first.activeEndpoint = some linkEndpoint ∧
        slot.nextEndpoint = (linkEndpoint + 1) % first.endpointCount) := by
  simp only [RelaySlot.waits, Bool.or_eq_false_iff] at hdue
  rcases h.phase with ⟨-, ⟨_, hpending, -⟩, -⟩ | ⟨-, -, hnone, -⟩ | ⟨hlost, -, hnext, -⟩ |
    ⟨hlost, -, -, hnext⟩
  · rw [Option.isSome_eq_false_iff, Option.isNone_iff_eq_none] at hdue
    rw [hdue.1] at hpending
    cases hpending
  · rw [hnone] at hdue
    simp at hdue
  · exact ⟨fun _ => hnext, fun hnow => absurd hnow hlost⟩
  · exact ⟨fun hnow => absurd hlost hnow, fun _ => hnext⟩

end Follows

/-! ## The pool between two requests of a slot -/

/-- The operation neither asks for a connection of the slot nor refreshes it. -/
def Quiet (pool : RelayPoolOrchestrator) (index : Nat) : Op → Prop
  | .poll now => ∀ requests, (pool.poll now).2 = .ok requests →
      ∀ request ∈ requests, request.slot ≠ index
  | .refresh route _ => route.slot = index → ∀ slot, ¬ pool.Refreshes route slot
  | _ => True

/-- The operation reports that a link of the slot failed. -/
def LosesLink (index generation : Nat) (pool : RelayPoolOrchestrator) (op : Op) : Prop :=
  ∃ now, op = .failed ⟨index, generation⟩ now ∧ pool.activeGeneration index = some generation

variable {endpointCounts : List Nat} {before mid : List Op}

/-- The link of `first` was reported as failed. -/
def LinkLost (start : RelayPoolOrchestrator) (index : Nat) (first : RelaySlot) (ops : List Op) : Prop :=
  ∃ generation, first.activeGeneration = some generation ∧
    Happened RelayPoolOrchestrator.step start (LosesLink index generation) ops

/-- No slot is stranded, no stale generation revived, and endpoints are tried in turn. -/
structure WellRun (endpointCounts : List Nat) (pool : RelayPoolOrchestrator) (ops : List Op) :
    Prop where
  alive : (exec Trace.step { pool } ops).pool.closed = false →
    ∀ slot ∈ (exec Trace.step { pool } ops).pool.slots,
      slot.pending.isSome ∨ slot.dueMillis.isSome ∨ slot.activeGeneration.isSome
  /-- A pending request replaces the current link, and its success is committed. -/
  commits : ∀ index pending, (exec Trace.step { pool } ops).pool.Pending index pending →
    pending.replacingGeneration = (exec Trace.step { pool } ops).pool.activeGeneration index ∧
      ∀ now, ∃ commit,
        ((exec Trace.step { pool } ops).pool.complete pending.requestId true now).2 =
          .ok (some commit) ∧ commit.slot = index ∧ commit.generation = pending.candidateGeneration
  distinct : ((exec Trace.step { pool } ops).commits.map (·.generation)).Nodup
  increasing : (exec Trace.step { pool } ops).commits.Pairwise fun a b =>
    a.slot = b.slot → a.generation < b.generation
  once : (exec Trace.step { pool } ops).completed.Nodup
  fenced : ∀ route, (exec Trace.step { pool } ops).pool.acceptsInbound route = true →
    (exec Trace.step { pool } ops).pool.closed = false ∧
      (exec Trace.step { pool } ops).pool.activeGeneration route.slot = some route.generation ∧
      ∀ lower < route.slot, (exec Trace.step { pool } ops).pool.activeGeneration lower = none
  /-- Two consecutive requests of a slot that is not refreshed in between: the second is for the
  endpoint after the first one's. If the link which the first was to replace failed in between, it is
  for the endpoint after that link's instead. -/
  rotates : ∀ before mid now now' requests requests' request request',
    ops = before ++ [.poll now] ++ mid ++ [.poll now'] →
    ((exec RelayPoolOrchestrator.step pool before).poll now).2 = .ok requests → request ∈ requests →
    Along (fun between op => Quiet (exec RelayPoolOrchestrator.step pool
      (before ++ [.poll now] ++ between)) request.slot op) mid →
    ((exec RelayPoolOrchestrator.step pool (before ++ [.poll now] ++ mid)).poll now').2 =
      .ok requests' → request' ∈ requests' → request'.slot = request.slot →
    ∃ first count, (exec RelayPoolOrchestrator.step pool before).slots[request.slot]? = some first ∧
      endpointCounts[request.slot]? = some count ∧
      (¬ LinkLost (exec RelayPoolOrchestrator.step pool (before ++ [.poll now])) request.slot first
          mid → request'.endpointIndex = (request.endpointIndex + 1) % count) ∧
      (LinkLost (exec RelayPoolOrchestrator.step pool (before ++ [.poll now])) request.slot first
          mid → ∃ linkEndpoint, first.activeEndpoint = some linkEndpoint ∧
            request'.endpointIndex = (linkEndpoint + 1) % count)

instance (pool : RelayPoolOrchestrator) : (op : Op) → Decidable (Suffices pool op)
  | .poll now =>
    match h : (pool.poll now).2 with
    | .ok requests => .isTrue ⟨requests, h⟩
    | .error _ => .isFalse (by rintro ⟨requests, hok⟩; rw [hok] at h; cases h)
  | .complete .. | .failed .. | .refresh .. | .close => .isTrue trivial

/-- A slot with four endpoints, connected to the third one after two failures. The link is being
replaced by one to the first endpoint. -/
def replacing : List Op :=
  [.poll 0, .complete 1 false 0, .poll 1000, .complete 2 false 1000, .poll 2000,
    .complete 3 true 2000, .refresh ⟨0, 3⟩ 3000]

end Peerward.PeerCore.RelayPool.RelayPoolOrchestrator
