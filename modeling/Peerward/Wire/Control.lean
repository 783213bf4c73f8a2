import Peerward.Lib.Decoder
import Peerward.Lib.Proto
import Peerward.Types.Ids

/-!
# Control envelopes and records

Everything two ends of a Relay link say to each other is one of the messages of `ControlEnvelope`, and
an envelope travels as the body of a record whose size is bounded before Noise sees it. Encodings are
those of Prost; the families that Relays hand on unread are `other`, with their tag and encoded body.
-/

namespace Peerward.Wire

open Peerward.Lib
open Peerward.Types (isRandom)

inductive WireError where
  | authentication
  | truncated
  | trailingBytes
  | invalidLength
  | unsupported
  | kindMismatch
  | malformedControl
  | unsupportedMajor
  | sequenceExhausted
  | rekeyRequired
  deriving DecidableEq

def PROTOCOL_MAJOR : Nat := 5
def MAX_CIPHERTEXT_LEN : Nat := 65535
def MAX_OPAQUE_FRAME_LEN : Nat := 65535

/-! ## Correlation -/

/-- Transport-neutral request and trace correlation values. -/
structure CorrelationContext where
  requestId : BitVec 128
  traceId : BitVec 128
  spanId : BitVec 64
  flags : UInt8
  deriving DecidableEq

/-- A child span with a distinct span id, `fresh`, and unchanged trace and request identity. -/
def CorrelationContext.child (context : CorrelationContext) (fresh : BitVec 64) : CorrelationContext :=
  { context with spanId := fresh }

/-- The binary representation of a correlation. -/
structure TraceContext where
  requestId : Bytes
  traceId : Bytes
  spanId : Bytes
  flags : Nat
  deriving DecidableEq

namespace TraceContext

def encode (trace : TraceContext) : Bytes :=
  bytesField 1 trace.requestId ++ bytesField 2 trace.traceId ++ bytesField 3 trace.spanId
    ++ uintField 4 trace.flags

def fromContext (context : CorrelationContext) : TraceContext where
  requestId := toBE 16 context.requestId.toNat
  traceId := toBE 16 context.traceId.toNat
  spanId := toBE 8 context.spanId.toNat
  flags := context.flags.toNat

/-- Strictly validates lengths, UUID version, and nonzero identifiers. -/
def tryIntoContext (trace : TraceContext) : Option CorrelationContext :=
  let requestId := BitVec.ofNat 128 (ofBE trace.requestId)
  let traceId := BitVec.ofNat 128 (ofBE trace.traceId)
  let spanId := BitVec.ofNat 64 (ofBE trace.spanId)
  if trace.requestId.length = 16 && trace.traceId.length = 16 && trace.spanId.length = 8
      && trace.flags < 256 && isRandom requestId && traceId ≠ 0 && spanId ≠ 0 then
    some { requestId, traceId, spanId, flags := UInt8.ofNat trace.flags }
  else none

end TraceContext

/-! ## Messages

The protobuf messages a Relay looks into, in the bytes that Prost writes: the fields in the order of their
tags, and none that has its default. Reading them is a parameter.
-/

/-- The only Peer payload a Relay routes. -/
structure RelayEnvelope where
  major : Nat
  meshId : Bytes
  destinationPeer : Bytes
  /-- Overwritten by the authenticated Relay link. -/
  sourcePeer : Bytes
  /-- An `i32`; the negative ones are no kinds. -/
  kind : Nat
  /-- End-to-end encrypted bytes. -/
  frame : Bytes
  deriving DecidableEq

/-- The first variant of `OpaqueFrameKind`, so the one Prost does not write. -/
def SESSION : Nat := 1
def AUDIT : Nat := 2

namespace RelayEnvelope

def encode (message : RelayEnvelope) : Bytes :=
  uintField 1 message.major ++ bytesField 2 message.meshId ++ bytesField 3 message.destinationPeer
    ++ bytesField 4 message.sourcePeer ++ enumField 5 SESSION message.kind ++ bytesField 6 message.frame

def validateCommon (message : RelayEnvelope) : Except WireError Unit := do
  rejectIf (message.major ≠ PROTOCOL_MAJOR) .unsupportedMajor
  rejectIf (message.meshId.length ≠ 16 || message.destinationPeer.length ≠ 16) .kindMismatch
  rejectIf ((message.kind ≠ SESSION && message.kind ≠ AUDIT) || message.frame.isEmpty
    || message.frame.length > MAX_OPAQUE_FRAME_LEN) .invalidLength

/-- Validates an unbound envelope received from an authenticated Peer link. -/
def validateFromPeer (message : RelayEnvelope) : Except WireError Unit := do
  rejectIf (!message.sourcePeer.isEmpty) .kindMismatch
  message.validateCommon

/-- Validates an envelope whose source a Relay has bound. -/
def validateForRelay (message : RelayEnvelope) : Except WireError Unit := do
  rejectIf (message.sourcePeer.length ≠ 16) .kindMismatch
  message.validateCommon

/-- Replaces caller-controlled source metadata with the authenticated identity. -/
def bindAuthenticatedSource (message : RelayEnvelope) (source : Types.PeerId) : RelayEnvelope :=
  { message with sourcePeer := source.asBytes }

end RelayEnvelope

/-- The messages whose fields a Relay link looks at. -/
inductive ControlMessage where
  | welcome (meshId body : Bytes)
  | keepalive (monotonicTimestamp : Nat)
  | close (meshId body : Bytes)
  | presence (meshId body : Bytes)
  | forwarded (meshId body : Bytes)
  | relayed (message : RelayEnvelope)
  | other (tag : Nat) (body : Bytes)
  deriving DecidableEq

/-- The two fields of `mesh_blob_message!`. -/
def meshBlob (meshId body : Bytes) : Bytes := bytesField 1 meshId ++ bytesField 2 body

def ControlMessage.encode : ControlMessage → Bytes
  | .welcome meshId body => messageField 2 (meshBlob meshId body)
  | .keepalive timestamp => messageField 3 (uintField 1 timestamp)
  | .close meshId body => messageField 4 (meshBlob meshId body)
  | .presence meshId body => messageField 8 (meshBlob meshId body)
  | .forwarded meshId body => messageField 9 (meshBlob meshId body)
  | .relayed message => messageField 24 message.encode
  | .other tag body => messageField tag body

theorem ControlMessage.encode_ne_nil (message : ControlMessage) : message.encode ≠ [] := by
  cases message <;> exact messageField_ne_nil _ _

structure ControlEnvelope where
  message : Option ControlMessage
  /-- Optional strict request and trace correlation. -/
  traceContext : Option TraceContext := none
  deriving DecidableEq

namespace ControlEnvelope

/-- `encode_to_vec`. Prost writes the fields in the order of their tags. -/
def encode (envelope : ControlEnvelope) : Bytes :=
  envelope.message.elim [] (·.encode)
    ++ envelope.traceContext.elim [] fun trace => messageField 25 trace.encode

theorem encode_ne_nil {envelope : ControlEnvelope} (h : envelope.message.isSome = true) :
    envelope.encode ≠ [] := by
  obtain ⟨message, hmessage⟩ := Option.isSome_iff_exists.mp h
  unfold encode
  rw [hmessage]
  exact List.append_ne_nil_of_left_ne_nil message.encode_ne_nil _

/-- Strictly validates an optional transported context. -/
def correlationContext (envelope : ControlEnvelope) : Except WireError (Option CorrelationContext) :=
  match envelope.traceContext with
  | none => .ok none
  | some trace => match trace.tryIntoContext with
    | none => .error .kindMismatch
    | some context => .ok (some context)

/-- Advances an existing trace to a new span id. -/
def advanceTrace (envelope : ControlEnvelope) (fresh : BitVec 64) : Except WireError ControlEnvelope := do
  match ← envelope.correlationContext with
  | none => return envelope
  | some context =>
    return { envelope with traceContext := some (.fromContext (context.child fresh)) }

end ControlEnvelope

/-! ## Records

A record is bounded before it is copied, and its kind is in front of it.
-/

/-- Plaintext record before Noise encryption or after Noise authentication. -/
inductive Record where
  | control (envelope : ControlEnvelope)
  | ipv4 (packet : Bytes)
  | ipv6 (packet : Bytes)
  deriving DecidableEq

/-- Bounds the body before it is copied or the Noise nonce is touched. -/
def Record.encodePlaintext (record : Record) : Except WireError Bytes :=
  let (kind, body) := match record with
    | .control envelope => (1, envelope.encode)
    | .ipv4 packet => (2, packet)
    | .ipv6 packet => (3, packet)
  if body.length + 4 > MAX_CIPHERTEXT_LEN - 16 then .error .invalidLength
  else .ok (toBE 2 kind ++ toBE 2 0 ++ body)

theorem encodePlaintext_isOk (envelope : ControlEnvelope) :
    (Record.control envelope).encodePlaintext.isOk = true ↔ envelope.encode.length ≤ 65515 := by
  unfold Record.encodePlaintext
  dsimp only
  by_cases h : envelope.encode.length + 4 > MAX_CIPHERTEXT_LEN - 16
  · rw [if_pos h]
    unfold MAX_CIPHERTEXT_LEN at h
    exact ⟨nofun, fun _ => by omega⟩
  · rw [if_neg h]
    unfold MAX_CIPHERTEXT_LEN at h
    exact ⟨fun _ => by omega, fun _ => rfl⟩

end Peerward.Wire
