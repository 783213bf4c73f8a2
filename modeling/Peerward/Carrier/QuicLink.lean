import Peerward.Carrier.QuicData

/-!
# The reliable stream of a QUIC link

Control records are numbered and wrapped in `Welcome` messages, next to receipts and heartbeats. What one
end writes, the other end unwraps, as long as its counters are where the writer's numbers expect them.
-/

namespace Peerward.Carrier

open Peerward.Lib Peerward.Wire Peerward.Relay
open Peerward.Types (RelayId)

/-- The admitted link: who it is with, and the counters of its reliable stream. -/
structure QuicLink where
  meshId : Bytes
  /-- A Relay at the other end; a Peer otherwise. -/
  source : Option RelayId
  client : Bool
  sentControl : Nat := 0
  receivedControl : Nat := 0
  acknowledgedControl : Nat := 0

/-- What `send_control`, `acknowledge` and `heartbeat` write. -/
inductive LinkRecord where
  | record (sequence : Nat) (control : ControlEnvelope)
  | receipt (sequence : Nat)
  | heartbeat (sequence : Nat) (response : Bool)

/-- What `receive` hands to the bridge. A datagram without a trace comes as its `Opaque` frame, from
which the bridge makes the same envelope again. -/
inductive Received where
  | ping (sequence : Nat)
  | pong (sequence : Nat)
  | acknowledged (sequence : Nat)
  | control (control : ControlEnvelope)

/-- `quic_ping_v1\0`. -/
def PING : Bytes := [113, 117, 105, 99, 95, 112, 105, 110, 103, 95, 118, 49, 0]
/-- `quic_pong_v1\0`. -/
def PONG : Bytes := [113, 117, 105, 99, 95, 112, 111, 110, 103, 95, 118, 49, 0]
/-- `quic_receipt_v1\0`. -/
def RECEIPT : Bytes := [113, 117, 105, 99, 95, 114, 101, 99, 101, 105, 112, 116, 95, 118, 49, 0]
/-- `quic_record_v1\0`. -/
def RECORD : Bytes := [113, 117, 105, 99, 95, 114, 101, 99, 111, 114, 100, 95, 118, 49, 0]

namespace LinkRecord

def body : LinkRecord → Bytes
  | .record sequence control => RECORD ++ (toBE 8 sequence ++ control.encode)
  | .receipt sequence => RECEIPT ++ toBE 8 sequence
  | .heartbeat sequence response => (if response then PONG else PING) ++ toBE 8 sequence

def envelope (meshId : Bytes) (frame : LinkRecord) : ControlEnvelope :=
  { message := some (.welcome meshId frame.body) }

end LinkRecord

/-- What follows a prefix. -/
def stripPrefix (front body : Bytes) : Option Bytes :=
  if front.isPrefixOf body then some (body.drop front.length) else none

/-- The number of a heartbeat. -/
def heartbeatSequence (payload : Bytes) : Except IoError Nat := do
  rejectIf (payload.length ≠ 8) (.invalid "invalid QUIC heartbeat")
  rejectIf (ofBE payload = 0) (.invalid "invalid QUIC heartbeat sequence")
  return ofBE payload

namespace QuicLink

variable (decode : EnvelopeDecoder) (link : QuicLink)

/-! ## Writing -/

def sendControl (control : ControlEnvelope) : Except IoError (QuicLink × LinkRecord) := do
  validateControl decode control
  rejectIf (2 ^ 64 ≤ link.sentControl + 1) (.invalid "control sequence exhausted")
  return ({ link with sentControl := link.sentControl + 1 }, .record (link.sentControl + 1) control)

/-- The mesh and the shape of the source. -/
def validateOpaque (frame : RelayEnvelope) (outgoing : Bool) : Except IoError Unit := do
  let fromPeer := link.source.isNone && link.client == outgoing
  let valid := if fromPeer then frame.validateFromPeer else frame.validateForRelay
  rejectIf (!valid.isOk) .other
  rejectIf (frame.meshId ≠ link.meshId || frame.kind ≠ SESSION)
    (.invalid "QUIC DATAGRAM requires this Mesh's WireGuard envelope")

def validateData (control : ControlEnvelope) (outgoing : Bool) : Except IoError Unit := do
  let forwarded := match control.message with
    | some (.forwarded _ _) => true
    | _ => false
  rejectIf (forwarded && link.source.isNone) (.invalid "Peer may not send backbone datagrams")
  match ← opaqueFrame decode control with
  | none => .error (.invalid "control forbidden in QUIC DATAGRAM")
  | some frame => link.validateOpaque frame outgoing

/-! ## Reading -/

def takeReceipt (payload : Bytes) : Except IoError (QuicLink × Received) := do
  rejectIf (payload.length ≠ 8) (.invalid "invalid QUIC receipt")
  let sequence := ofBE payload
  rejectIf (sequence ≤ link.acknowledgedControl || link.sentControl < sequence)
    (.invalid "unexpected QUIC receipt")
  return ({ link with acknowledgedControl := sequence }, .acknowledged sequence)

def takeRecord (payload : Bytes) : Except IoError (QuicLink × Received) := do
  rejectIf (payload.length ≤ 8) (.invalid "truncated QUIC control")
  let sequence := ofBE (payload.take 8)
  rejectIf (link.receivedControl + 1 ≠ sequence) (.invalid "invalid QUIC control sequence")
  match decode (payload.drop 8) with
  | none => .error .other
  | some control =>
    rejectIf (control.encode ≠ payload.drop 8) (.invalid "noncanonical QUIC control")
    validateControl decode control
    return ({ link with receivedControl := sequence }, .control control)

def unwrapBody (body : Bytes) : Except IoError (QuicLink × Received) :=
  match stripPrefix PING body with
  | some payload => (heartbeatSequence payload).map fun sequence => (link, .ping sequence)
  | none => match stripPrefix PONG body with
    | some payload => (heartbeatSequence payload).map fun sequence => (link, .pong sequence)
    | none => match stripPrefix RECEIPT body with
      | some payload => link.takeReceipt payload
      | none => match stripPrefix RECORD body with
        | some payload => link.takeRecord decode payload
        | none => .error (.invalid "invalid QUIC control kind")

def unwrapControl (control : ControlEnvelope) : Except IoError (QuicLink × Received) :=
  match control.message with
  | some (.welcome meshId body) => do
    rejectIf (meshId ≠ link.meshId || control.traceContext.isSome) (.invalid "invalid QUIC control Mesh")
    link.unwrapBody decode body
  | _ => .error (.invalid "missing QUIC record wrapper")

end QuicLink

/-! ## What is written is unwrapped -/

variable {decode : EnvelopeDecoder} {link : QuicLink} {sequence : Nat} {control : ControlEnvelope}

theorem stripPrefix_append (front back : Bytes) : stripPrefix front (front ++ back) = some back := by
  unfold stripPrefix
  rw [if_pos (List.isPrefixOf_iff_prefix.mpr (List.prefix_append _ _)), List.drop_left]

theorem unwrapControl_envelope (frame : LinkRecord) :
    link.unwrapControl decode (frame.envelope link.meshId) = link.unwrapBody decode frame.body := by
  unfold QuicLink.unwrapControl LinkRecord.envelope
  have hmesh : rejectIf (link.meshId ≠ link.meshId || (none : Option TraceContext).isSome)
      (IoError.invalid "invalid QUIC control Mesh") = .ok () := rejectIf_eq_ok.mpr (by simp)
  dsimp only
  rw [hmesh, ok_bind]

theorem heartbeatSequence_toBE (hpositive : 0 < sequence) (hsmall : sequence < 2 ^ 64) :
    heartbeatSequence (toBE 8 sequence) = .ok sequence := by
  have hround : ofBE (toBE 8 sequence) = sequence := ofBE_toBE_of_lt hsmall
  unfold heartbeatSequence
  rw [hround]
  refine bind_eq_ok.mpr ⟨(), rejectIf_eq_ok.mpr (by simp), bind_eq_ok.mpr ⟨(), rejectIf_eq_ok.mpr ?_, rfl⟩⟩
  exact decide_eq_false (by omega)

theorem unwrap_heartbeat (hpositive : 0 < sequence) (hsmall : sequence < 2 ^ 64) (response : Bool) :
    link.unwrapControl decode ((LinkRecord.heartbeat sequence response).envelope link.meshId) =
      .ok (link, if response then .pong sequence else .ping sequence) := by
  rw [unwrapControl_envelope]
  cases response with
  | false =>
      show link.unwrapBody decode (PING ++ toBE 8 sequence) = _
      rw [QuicLink.unwrapBody, stripPrefix_append]
      dsimp only
      rw [heartbeatSequence_toBE hpositive hsmall]
      rfl
  | true =>
      have hping : stripPrefix PING (PONG ++ toBE 8 sequence) = none := rfl
      show link.unwrapBody decode (PONG ++ toBE 8 sequence) = _
      rw [QuicLink.unwrapBody, hping, stripPrefix_append]
      dsimp only
      rw [heartbeatSequence_toBE hpositive hsmall]
      rfl

theorem unwrap_receipt (hnew : link.acknowledgedControl < sequence) (hsent : sequence ≤ link.sentControl)
    (hsmall : sequence < 2 ^ 64) :
    link.unwrapControl decode ((LinkRecord.receipt sequence).envelope link.meshId) =
      .ok ({ link with acknowledgedControl := sequence }, .acknowledged sequence) := by
  have hping : stripPrefix PING (RECEIPT ++ toBE 8 sequence) = none := rfl
  have hpong : stripPrefix PONG (RECEIPT ++ toBE 8 sequence) = none := rfl
  have hround : ofBE (toBE 8 sequence) = sequence := ofBE_toBE_of_lt hsmall
  rw [unwrapControl_envelope]
  show link.unwrapBody decode (RECEIPT ++ toBE 8 sequence) = _
  rw [QuicLink.unwrapBody, hping, hpong, stripPrefix_append]
  dsimp only
  unfold QuicLink.takeReceipt
  rw [hround]
  refine bind_eq_ok.mpr ⟨(), rejectIf_eq_ok.mpr (by simp), bind_eq_ok.mpr ⟨(), rejectIf_eq_ok.mpr ?_, rfl⟩⟩
  rw [Bool.or_eq_false_iff, decide_eq_false_iff_not, decide_eq_false_iff_not]
  omega

theorem unwrap_record (hnext : sequence = link.receivedControl + 1) (hsmall : sequence < 2 ^ 64)
    (hdecode : decode control.encode = some control) (hvalid : validateControl decode control = .ok ()) :
    link.unwrapControl decode ((LinkRecord.record sequence control).envelope link.meshId) =
      .ok ({ link with receivedControl := sequence }, .control control) := by
  have hping : stripPrefix PING (RECORD ++ (toBE 8 sequence ++ control.encode)) = none := rfl
  have hpong : stripPrefix PONG (RECORD ++ (toBE 8 sequence ++ control.encode)) = none := rfl
  have hreceipt : stripPrefix RECEIPT (RECORD ++ (toBE 8 sequence ++ control.encode)) = none := rfl
  have hround : ofBE (toBE 8 sequence) = sequence := ofBE_toBE_of_lt hsmall
  have hmessage : control.message.isSome = true := by
    obtain ⟨_, _, hvalid⟩ := bind_eq_ok.mp hvalid
    replace hvalid := rejectIf_eq_ok.mp hvalid
    rw [Bool.or_eq_false_iff] at hvalid
    cases hsome : control.message with
    | none => rw [hsome] at hvalid; cases hvalid.1
    | some message => rfl
  have hlong := List.length_pos_iff.mpr (ControlEnvelope.encode_ne_nil hmessage)
  rw [unwrapControl_envelope]
  show link.unwrapBody decode (RECORD ++ (toBE 8 sequence ++ control.encode)) = _
  rw [QuicLink.unwrapBody, hping, hpong, hreceipt, stripPrefix_append]
  dsimp only
  unfold QuicLink.takeRecord
  rw [List.take_left' (length_toBE _ _), List.drop_left' (length_toBE _ _), hround, hdecode]
  refine bind_eq_ok.mpr ⟨(), rejectIf_eq_ok.mpr ?_, bind_eq_ok.mpr ⟨(), rejectIf_eq_ok.mpr ?_, ?_⟩⟩
  · rw [List.length_append, length_toBE]
    exact decide_eq_false (by omega)
  · exact decide_eq_false (not_not.mpr hnext.symm)
  · exact bind_eq_ok.mpr ⟨(), rejectIf_eq_ok.mpr (decide_eq_false (not_not.mpr rfl)),
      bind_eq_ok.mpr ⟨(), hvalid, rfl⟩⟩

end Peerward.Carrier
