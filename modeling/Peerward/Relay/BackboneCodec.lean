import Peerward.Relay.Protocol

/-!
# Reading backbone payloads

What a Relay reads from the body of a `Forwarded` message. The envelope inside is left to Prost, whose
decoder is a parameter.
-/

namespace Peerward.Relay

open Peerward.Lib Peerward.Wire
open Peerward.Types (Id RelayId)

/-- `ControlEnvelope::decode`. -/
abbrev EnvelopeDecoder : Type := Bytes → Option ControlEnvelope

variable (decode : EnvelopeDecoder)

/-- An identifier at a known place. -/
def readId (bytes : Bytes) : Except RelayError Id :=
  match Id.fromSlice bytes with
  | some id => .ok id
  | none => .error .malformedForwarded

def decodeControlBody (body : Bytes) : Except RelayError RoutedControl := do
  rejectIf (body.length < 44) .malformedForwarded
  let source ← readId (slice body 0 16)
  let destination ← readId (slice body 16 32)
  let generation := i64Of (slice body 32 40)
  let length := ofBE (slice body 40 44)
  rejectIf (MAX_BACKBONE_BODY < length || body.length ≠ 44 + length) .malformedForwarded
  match decode (body.drop 44) with
  | none => .error (.wire .malformedControl)
  | some envelope => return { source, destination, generation, envelope }

def visitedCount (body : Bytes) : Nat := (body.getD 42 0).toNat

def routeLength (body : Bytes) : Nat := 43 + visitedCount body * 16 + 4

/-- All zeros are no destination. -/
def readDestination (bytes : Bytes) : Except RelayError (Option RelayId) :=
  if bytes = List.replicate 16 0 then .ok none else (readId bytes).map some

/-- The route of a body whose tag has been read. -/
def decodeRoute (body : Bytes) : Except RelayError BackboneRoute := do
  let origin ← readId (slice body 1 17)
  let destination ← readDestination (slice body 17 33)
  let hopLimit := (body.getD 41 0).toNat
  rejectIf (!(1 ≤ hopLimit && hopLimit ≤ 4) || !(1 ≤ visitedCount body && visitedCount body ≤ 4))
    .malformedForwarded
  rejectIf (body.length < routeLength body) .malformedForwarded
  let visited ← (chunks (slice body 43 (43 + visitedCount body * 16)) 16).mapM readId
  rejectIf (¬ visited.Nodup) .malformedForwarded
  return { origin, destination, topologyRevision := ofBE (slice body 33 41), hopLimit, visited }

def decodeRoutedPayload (body : Bytes) : Except RelayError BackbonePayload := do
  rejectIf (body.length < 47) .malformedForwarded
  let route ← decodeRoute body
  let payloadLength := ofBE (slice body (routeLength body - 4) (routeLength body))
  rejectIf (MAX_BACKBONE_BODY < payloadLength || body.length ≠ routeLength body + payloadLength)
    .malformedForwarded
  let payload := body.drop (routeLength body)
  match body.getD 0 0, route.destination with
  | 1, some _ => return .routedControl (← decodeControlBody decode payload) route
  | 2, none => return .routedPresence (← decodePresence payload) route
  | _, _ => .error .malformedForwarded

def decodeBackbonePayload (body : Bytes) : Except RelayError BackbonePayload :=
  match body with
  | 2 :: body => (decodeControlBody decode body).map .control
  | 3 :: body => decodeRoutedPayload decode body
  | _ => .error .malformedForwarded

variable {decode} {body : Bytes}

theorem readId_eq_ok {bytes : Bytes} {id : Id} (h : readId bytes = .ok id) : bytes = id.asBytes := by
  unfold readId at h
  split at h
  · next read hread => exact (Except.ok.inj h) ▸ (Types.Id.asBytes_of_fromSlice hread).symm
  · cases h

/-- An accepted control body is its fields. -/
theorem decodeControlBody_eq_ok {control : RoutedControl} (h : decodeControlBody decode body = .ok control) :
    44 ≤ body.length ∧ slice body 0 16 = control.source.asBytes ∧
      slice body 16 32 = control.destination.asBytes ∧ ofBE (slice body 40 44) ≤ MAX_BACKBONE_BODY ∧
      body.length = 44 + ofBE (slice body 40 44) ∧ decode (body.drop 44) = some control.envelope := by
  obtain ⟨_, hlength, h⟩ := bind_eq_ok.mp h
  obtain ⟨source, hsource, h⟩ := bind_eq_ok.mp h
  obtain ⟨destination, hdestination, h⟩ := bind_eq_ok.mp h
  obtain ⟨_, hsize, h⟩ := bind_eq_ok.mp h
  rw [rejectIf_eq_ok, decide_eq_false_iff_not, Nat.not_lt] at hlength
  rw [rejectIf_eq_ok, Bool.or_eq_false_iff, decide_eq_false_iff_not, decide_eq_false_iff_not,
    Nat.not_lt, not_not] at hsize
  split at h
  · cases h
  · next envelope hdecode =>
      rw [← Except.ok.inj h]
      exact ⟨hlength, readId_eq_ok hsource, readId_eq_ok hdestination, hsize.1, hsize.2, hdecode⟩

theorem decodeRoute_eq_ok {route : BackboneRoute} (h : decodeRoute body = .ok route) :
    (1 ≤ (body.getD 41 0).toNat ∧ (body.getD 41 0).toNat ≤ 4) ∧
      (1 ≤ visitedCount body ∧ visitedCount body ≤ 4) ∧ routeLength body ≤ body.length := by
  unfold decodeRoute at h
  obtain ⟨_, _, h⟩ := bind_eq_ok.mp h
  obtain ⟨_, _, h⟩ := bind_eq_ok.mp h
  obtain ⟨_, hbounds, h⟩ := bind_eq_ok.mp h
  obtain ⟨_, hlength, h⟩ := bind_eq_ok.mp h
  rw [rejectIf_eq_ok] at hbounds hlength
  simp only [Bool.or_eq_false_iff, Bool.not_eq_false', Bool.and_eq_true, decide_eq_true_eq] at hbounds
  rw [decide_eq_false_iff_not, Nat.not_lt] at hlength
  exact ⟨hbounds.1, hbounds.2, hlength⟩

end Peerward.Relay
