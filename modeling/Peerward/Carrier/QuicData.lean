import Peerward.Relay.BackboneCodec

/-!
# The backbone frames that QUIC carries as datagrams

The carrier looks for a session frame inside a `Forwarded` message with offsets of its own. A read outside
the bytes would panic; it is an error of its own here. The result on Relays is `quic_classification`:
what a Relay encoded is told apart as it was encoded, and what a Relay would read is read the same way.
-/

namespace Peerward.Carrier

open Peerward.Lib Peerward.Wire Peerward.Relay
open Peerward.Types (Id MeshId RelayId)

inductive IoError where
  | invalid (what : String)
  | other
  /-- A read outside the bytes. -/
  | outOfBounds
  deriving DecidableEq

/-- `bytes[index]`. -/
def byteAt (bytes : Bytes) (index : Nat) : Except IoError UInt8 :=
  match bytes[index]? with
  | some b => .ok b
  | none => .error .outOfBounds

/-- `bytes[start..stop]`. -/
def sliceAt (bytes : Bytes) (start stop : Nat) : Except IoError Bytes :=
  if start ≤ stop ∧ stop ≤ bytes.length then .ok (slice bytes start stop) else .error .outOfBounds

/-! ## Finding the session frame

Offsets are followed by hand, through the body of a `Forwarded` message and the envelope in it, so as not
to decode the whole. Whatever does not look as expected is left to the reliable stream.
-/

/-- What follows the route of a body. -/
def routedPayload (body : Bytes) : Except IoError Bytes := do
  rejectIf (body.length < 48) (.invalid "truncated backbone route")
  let count := (← byteAt body 43).toNat
  let hopLimit := (← byteAt body 42).toNat
  rejectIf (!(1 ≤ count && count ≤ 4) || !(1 ≤ hopLimit && hopLimit ≤ 4))
    (.invalid "invalid backbone route bound")
  let stop := 44 + count * 16
  rejectIf (body.length < stop + 4) (.invalid "truncated backbone path")
  let size := ofBE (← sliceAt body stop (stop + 4))
  rejectIf (stop + 4 + size ≠ body.length) (.invalid "invalid backbone body size")
  sliceAt body (stop + 4) body.length

/-- The payload of a routed control, when the body holds one. -/
def backbonePayload (body : Bytes) : Except IoError (Option Bytes) :=
  match body.head?, body.tail.head? with
  | some 2, _ => (sliceAt body 1 body.length).map some
  | some 3, some 1 => (routedPayload body).map some
  -- Presence and control still use the reliable stream.
  | _, _ => .ok none

/-- A session frame is of the Mesh and the two Peers around it. -/
def fencedFrame (meshId source destination : Bytes) :
    Option ControlMessage → Except IoError (Option RelayEnvelope)
  | some (.relayed frame) =>
    if frame.kind ≠ SESSION then .ok none
    else if frame.meshId ≠ meshId ∨ frame.sourcePeer ≠ source ∨ frame.destinationPeer ≠ destination then
      .error (.invalid "backbone source or destination mismatch")
    else .ok (some frame)
  | _ => .ok none

def payloadFrame (decode : EnvelopeDecoder) (meshId payload : Bytes) :
    Except IoError (Option RelayEnvelope) := do
  rejectIf (payload.length < 44) (.invalid "truncated backbone source fence")
  let size := ofBE (← sliceAt payload 40 44)
  rejectIf (size + 44 ≠ payload.length || 60 * 1024 < size) (.invalid "invalid backbone payload size")
  let bytes ← sliceAt payload 44 payload.length
  match decode bytes with
  | none => .error .other
  | some control =>
    rejectIf (control.encode ≠ bytes) (.invalid "noncanonical backbone control")
    let source ← sliceAt payload 0 16
    let destination ← sliceAt payload 16 32
    fencedFrame meshId source destination control.message

def backboneOpaque (decode : EnvelopeDecoder) (meshId body : Bytes) :
    Except IoError (Option RelayEnvelope) := do
  match ← backbonePayload body with
  | none => return none
  | some payload => payloadFrame decode meshId payload

/-- `quic_data::opaque`. -/
def opaqueFrame (decode : EnvelopeDecoder) (control : ControlEnvelope) :
    Except IoError (Option RelayEnvelope) :=
  match control.message with
  | some (.relayed frame) => if frame.kind = SESSION then .ok (some frame) else .ok none
  | some (.forwarded meshId body) => backboneOpaque decode meshId body
  | _ => .ok none

/-- What may go on the reliable stream. -/
def validateControl (decode : EnvelopeDecoder) (envelope : ControlEnvelope) : Except IoError Unit := do
  let isOpaque := (← opaqueFrame decode envelope).isSome
  rejectIf (envelope.message.isNone || isOpaque) (.invalid "WireGuard envelopes must use QUIC DATAGRAM")

/-! ## Reads

Every slice here has its bounds checked before, in the source by the branch that leads to it. That no read
is out of bounds is proved function by function.
-/

variable {decode : EnvelopeDecoder} {bytes body payload : Bytes} {meshId : Bytes}

theorem byteAt_of_lt {index : Nat} (h : index < bytes.length) :
    byteAt bytes index = .ok (bytes.getD index 0) := by
  unfold byteAt
  rw [List.getD_eq_getElem?_getD, List.getElem?_eq_getElem h]
  rfl

theorem sliceAt_of_le {start stop : Nat} (h : start ≤ stop) (hstop : stop ≤ bytes.length) :
    sliceAt bytes start stop = .ok (slice bytes start stop) := if_pos ⟨h, hstop⟩

theorem slice_length {start : Nat} : slice bytes start bytes.length = bytes.drop start := by
  rw [slice, ← List.length_drop, List.take_length]

theorem sliceAt_rest {start : Nat} (h : start ≤ bytes.length) :
    sliceAt bytes start bytes.length = .ok (bytes.drop start) := by
  rw [sliceAt_of_le h (Nat.le_refl _), slice_length]

theorem length_flatMap_asBytes (ids : List Id) : (ids.flatMap Id.asBytes).length = 16 * ids.length := by
  induction ids with
  | nil => rfl
  | cons id ids ih =>
      rw [List.flatMap_cons, List.length_append, ih, Id.length_asBytes, List.length_cons]
      omega

/-- The control that a payload carries. -/
def carriedControl : BackbonePayload → Option RoutedControl
  | .control control | .routedControl control _ => some control
  | .presence _ | .routedPresence _ _ => none

/-- The frame in a control is of the Mesh and of the two Peers around it. -/
def Fenced (meshId : Bytes) (control : RoutedControl) : Prop :=
  ∀ frame, control.envelope.message = some (.relayed frame) → frame.meshId = meshId ∧
    frame.sourcePeer = control.source.asBytes ∧ frame.destinationPeer = control.destination.asBytes

namespace QuicData

def mesh : MeshId := ⟨0x00000000000040008000000000000001#128, Types.random_one⟩

def frame : RelayEnvelope where
  major := 5
  meshId := mesh.asBytes
  destinationPeer := mesh.asBytes
  sourcePeer := mesh.asBytes
  kind := SESSION
  frame := [1, 2, 3]

def control : RoutedControl where
  source := mesh
  destination := mesh
  generation := 7
  envelope := { message := some (.relayed frame) }

def route : BackboneRoute where
  origin := mesh
  destination := some mesh
  topologyRevision := 1
  hopLimit := 4
  visited := [mesh]

/-- Prost, as far as this envelope goes. -/
def prost : EnvelopeDecoder := fun bytes =>
  if bytes = control.envelope.encode then some control.envelope else none

theorem carried {sent : RoutedControl} (h : carriedControl (.routedControl control route) = some sent) :
    prost sent.envelope.encode = some sent.envelope ∧ Fenced mesh.asBytes sent := by
  cases h
  refine ⟨if_pos rfl, fun _ h => ?_⟩
  cases h
  exact ⟨rfl, rfl, rfl⟩

end QuicData

end Peerward.Carrier
