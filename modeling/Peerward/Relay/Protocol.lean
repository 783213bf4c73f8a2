import Peerward.Wire.Control

/-!
# Backbone payloads

What Relays forward to each other, and its bytes inside the `Forwarded` and `Presence` messages of a
backbone link.
-/

namespace Peerward.Relay

open Peerward.Lib Peerward.Wire
open Peerward.Types (Id MeshId PeerId RelayId)

inductive RelayError where
  | invalidConfig
  | wire (error : WireError)
  | io
  | store
  | credential
  | directory
  | noRoute
  | staleFence
  | queueFull
  | malformedForwarded
  | handshakeLimited
  deriving DecidableEq

def RelayError.ofWire {α : Type} : Except WireError α → Except RelayError α :=
  Except.mapError .wire

def MAX_BACKBONE_BODY : Nat := 60 * 1024
def PRESENCE_WIRE_VERSION : UInt8 := 1
def PRESENCE_WIRE_LENGTH : Nat := 67

/-! ## Data -/

inductive PresenceRole where
  | primary
  | standby
  deriving DecidableEq

/-- `time::OffsetDateTime`: its Unix timestamp and the nanoseconds within the second. -/
structure OffsetDateTime where
  unixTimestamp : Int64
  nanosecond : Nat
  inRange : -377705116800 ≤ unixTimestamp.toInt ∧ unixTimestamp.toInt ≤ 253402300799
  deriving DecidableEq

namespace OffsetDateTime

def fromUnixTimestamp (timestamp : Int64) : Option OffsetDateTime :=
  if h : -377705116800 ≤ timestamp.toInt ∧ timestamp.toInt ≤ 253402300799 then some ⟨timestamp, 0, h⟩
  else none

def lt (a b : OffsetDateTime) : Bool :=
  a.unixTimestamp < b.unixTimestamp
    || (a.unixTimestamp = b.unixTimestamp && a.nanosecond < b.nanosecond)

/-- What is left of an instant on the wire. -/
def truncate (time : OffsetDateTime) : OffsetDateTime := { time with nanosecond := 0 }

end OffsetDateTime

/-- One exact presence incarnation learned from a database snapshot or authenticated Relay. -/
structure PresenceEntry where
  peerId : PeerId
  relayId : RelayId
  attachmentId : Id
  role : PresenceRole
  generation : Int64
  leaseDeadline : OffsetDateTime
  deriving DecidableEq

structure PresenceAnnouncement where
  entry : PresenceEntry
  released : Bool
  deriving DecidableEq

/-- Authenticated Peer control message routed through one or more Relays. -/
structure RoutedControl where
  source : PeerId
  destination : PeerId
  generation : Int64
  envelope : ControlEnvelope
  deriving DecidableEq

/-- Bounded sparse-backbone routing metadata authenticated by every Noise hop. -/
structure BackboneRoute where
  origin : RelayId
  destination : Option RelayId
  topologyRevision : Nat
  hopLimit : Nat
  visited : List RelayId
  deriving DecidableEq

inductive BackbonePayload where
  | control (control : RoutedControl)
  | presence (update : PresenceAnnouncement)
  | routedControl (control : RoutedControl) (route : BackboneRoute)
  | routedPresence (update : PresenceAnnouncement) (route : BackboneRoute)
  deriving DecidableEq

/-! ## Encoding

Fields at fixed places, big-endian, with the deadline in whole seconds.
-/

def i64Bytes (n : Int64) : Bytes := toBE 8 n.toBitVec.toNat

def PresenceRole.code : PresenceRole → UInt8
  | .primary => 1
  | .standby => 2

def encodePresence (update : PresenceAnnouncement) : Bytes :=
  [PRESENCE_WIRE_VERSION, if update.released then 1 else 0]
    ++ update.entry.peerId.asBytes
    ++ update.entry.relayId.asBytes
    ++ update.entry.attachmentId.asBytes
    ++ [update.entry.role.code]
    ++ i64Bytes update.entry.generation
    ++ i64Bytes update.entry.leaseDeadline.unixTimestamp

def encodeControlBody (control : RoutedControl) : Except RelayError Bytes :=
  let envelope := control.envelope.encode
  if envelope.length > MAX_BACKBONE_BODY then .error .queueFull
  else .ok (control.source.asBytes ++ control.destination.asBytes ++ i64Bytes control.generation
    ++ toBE 4 envelope.length ++ envelope)

def encodeLegacyForwardedControl (control : RoutedControl) : Except RelayError Bytes := do
  let payload ← encodeControlBody control
  return 2 :: payload

def encodeRoutedPayload (kind : UInt8) (route : BackboneRoute) (payload : Bytes) :
    Except RelayError Bytes :=
  if !(1 ≤ route.hopLimit && route.hopLimit ≤ 4) || route.visited.isEmpty || route.visited.length > 4
      || payload.length > MAX_BACKBONE_BODY || decide (kind = 1) ≠ route.destination.isSome then
    .error .malformedForwarded
  else if ¬ route.visited.Nodup then .error .malformedForwarded
  else .ok ([3, kind] ++ route.origin.asBytes
    ++ route.destination.elim (List.replicate 16 0) Id.asBytes ++ toBE 8 route.topologyRevision
    ++ [UInt8.ofNat route.hopLimit, UInt8.ofNat route.visited.length]
    ++ route.visited.flatMap Id.asBytes ++ toBE 4 payload.length ++ payload)

def encodeBackbonePayload : BackbonePayload → Except RelayError Bytes
  | .control control => encodeLegacyForwardedControl control
  | .presence _ => .error (.wire .kindMismatch)
  | .routedControl control route => do encodeRoutedPayload 1 route (← encodeControlBody control)
  | .routedPresence update route => encodeRoutedPayload 2 route (encodePresence update)

def backbonePayloadEnvelope (meshId : MeshId) (payload : BackbonePayload) :
    Except RelayError ControlEnvelope := do
  let body ← encodeBackbonePayload payload
  return { message := some (.forwarded meshId.asBytes body) }

def backboneControlEnvelope (meshId : MeshId) :
    BackbonePayload → Except RelayError ControlEnvelope
  | .presence update =>
    .ok { message := some (.presence meshId.asBytes (encodePresence update)) }
  | payload => backbonePayloadEnvelope meshId payload

/-! ## Decoding -/

def i64Of (bytes : Bytes) : Int64 := Int64.ofBitVec (BitVec.ofNat 64 (ofBE bytes))

def PresenceRole.ofCode (code : UInt8) : Option PresenceRole :=
  if code = 1 then some .primary else if code = 2 then some .standby else none

/-- The announcement in a body of the right length. -/
def parsePresence (body : Bytes) : Option PresenceAnnouncement := do
  let peerId ← Id.fromSlice (slice body 2 18)
  let relayId ← Id.fromSlice (slice body 18 34)
  let attachmentId ← Id.fromSlice (slice body 34 50)
  let role ← PresenceRole.ofCode (body.getD 50 0)
  let leaseDeadline ← OffsetDateTime.fromUnixTimestamp (i64Of (slice body 59 67))
  return {
    entry := { peerId, relayId, attachmentId, role, generation := i64Of (slice body 51 59)
               leaseDeadline }
    released := body.getD 1 0 = 1 }

def decodePresence (body : Bytes) : Except RelayError PresenceAnnouncement :=
  if body.length ≠ PRESENCE_WIRE_LENGTH || body.getD 0 0 ≠ PRESENCE_WIRE_VERSION
      || body.getD 1 0 > 1 then .error (.wire .kindMismatch)
  else match parsePresence body with
    | none => .error (.wire .kindMismatch)
    | some update => .ok update

/-- What a Relay on the other end reads: deadlines travel as whole seconds. -/
def PresenceAnnouncement.received (update : PresenceAnnouncement) : PresenceAnnouncement :=
  { update with entry := { update.entry with
    leaseDeadline := update.entry.leaseDeadline.truncate } }

@[simp] theorem length_i64Bytes (n : Int64) : (i64Bytes n).length = 8 := length_toBE _ _

theorem i64Of_i64Bytes (n : Int64) : i64Of (i64Bytes n) = n := by
  have hlt : n.toBitVec.toNat < 256 ^ 8 := n.toBitVec.isLt
  rw [i64Of, i64Bytes, ofBE_toBE_of_lt hlt, BitVec.ofNat_toNat, BitVec.setWidth_eq]
  rfl

theorem ofCode_code (role : PresenceRole) : PresenceRole.ofCode role.code = some role := by
  cases role <;> rfl

theorem fromUnixTimestamp_truncate (time : OffsetDateTime) :
    OffsetDateTime.fromUnixTimestamp time.unixTimestamp = some time.truncate := by
  rw [OffsetDateTime.fromUnixTimestamp, dif_pos time.inRange]
  rfl

/-- Reading an announcement back from its bytes. -/
theorem decodePresence_encodePresence (update : PresenceAnnouncement) :
    decodePresence (encodePresence update) = .ok update.received := by
  obtain ⟨⟨peerId, relayId, attachmentId, role, generation, deadline⟩, released⟩ := update
  let head : Bytes := [PRESENCE_WIRE_VERSION, if released then 1 else 0]
  let toPeer := head ++ peerId.asBytes
  let toRelay := toPeer ++ relayId.asBytes
  let toAttachment := toRelay ++ attachmentId.asBytes
  let toRole := toAttachment ++ [role.code]
  let toGeneration := toRole ++ i64Bytes generation
  have hbody : encodePresence ⟨⟨peerId, relayId, attachmentId, role, generation, deadline⟩, released⟩
      = toGeneration ++ i64Bytes deadline.unixTimestamp := rfl
  have hpeerLength : toPeer.length = 18 := by simp [toPeer, head]
  have hrelayLength : toRelay.length = 34 := by simp [toRelay, hpeerLength]
  have hattachmentLength : toAttachment.length = 50 := by simp [toAttachment, hrelayLength]
  have hroleLength : toRole.length = 51 := by simp [toRole, hattachmentLength]
  have hgenerationLength : toGeneration.length = 59 := by simp [toGeneration, hroleLength]
  generalize encodePresence _ = body at hbody
  subst hbody
  -- each field is the last one of what comes before the next
  have hattachments : ∀ start stop, stop ≤ 50 →
      slice (toGeneration ++ i64Bytes deadline.unixTimestamp) start stop
        = slice toAttachment start stop := by
    intro start stop h
    rw [slice_append_left (by omega)]
    exact (slice_append_left (by omega) _).trans (slice_append_left (by omega) _)
  have hdeadline : slice (toGeneration ++ i64Bytes deadline.unixTimestamp) 59 67
      = i64Bytes deadline.unixTimestamp := slice_last hgenerationLength (by simp)
  have hgeneration : slice (toGeneration ++ i64Bytes deadline.unixTimestamp) 51 59
      = i64Bytes generation := by
    rw [slice_append_left (by omega)]
    exact slice_last hroleLength (by simp)
  have hattachment : slice (toGeneration ++ i64Bytes deadline.unixTimestamp) 34 50
      = attachmentId.asBytes :=
    (hattachments 34 50 (by omega)).trans (slice_last hrelayLength (by simp))
  have hrelay : slice (toGeneration ++ i64Bytes deadline.unixTimestamp) 18 34 = relayId.asBytes := by
    rw [hattachments 18 34 (by omega), slice_append_left (by omega)]
    exact slice_last hpeerLength (by simp)
  have hpeer : slice (toGeneration ++ i64Bytes deadline.unixTimestamp) 2 18 = peerId.asBytes := by
    rw [hattachments 2 18 (by omega), slice_append_left (by omega), slice_append_left (by omega)]
    exact slice_last rfl (by simp)
  have hrole : (toGeneration ++ i64Bytes deadline.unixTimestamp).getD 50 0 = role.code := by
    rw [List.append_assoc, List.append_assoc, List.getD_append_right _ _ _ _ (by omega),
      hattachmentLength]
    rfl
  have hhead : ∀ rest : Bytes, (head ++ rest).getD 0 0 = PRESENCE_WIRE_VERSION ∧
      (head ++ rest).getD 1 0 = if released then 1 else 0 := fun _ => ⟨rfl, rfl⟩
  have hlength : (toGeneration ++ i64Bytes deadline.unixTimestamp).length = PRESENCE_WIRE_LENGTH := by
    rw [List.length_append, hgenerationLength, length_i64Bytes]
    rfl
  have hshape : toGeneration ++ i64Bytes deadline.unixTimestamp = head ++ (peerId.asBytes ++
      (relayId.asBytes ++ (attachmentId.asBytes ++ ([role.code] ++ (i64Bytes generation ++
        i64Bytes deadline.unixTimestamp))))) := by
    simp only [toGeneration, toRole, toAttachment, toRelay, toPeer, List.append_assoc]
  obtain ⟨hversion, hflag⟩ := hhead (peerId.asBytes ++
      (relayId.asBytes ++ (attachmentId.asBytes ++ ([role.code] ++ (i64Bytes generation ++
        i64Bytes deadline.unixTimestamp)))))
  rw [← hshape] at hversion hflag
  have hparse : parsePresence (toGeneration ++ i64Bytes deadline.unixTimestamp)
      = some (PresenceAnnouncement.received
        ⟨⟨peerId, relayId, attachmentId, role, generation, deadline⟩, released⟩) := by
    unfold parsePresence
    rw [hpeer, hrelay, hattachment, hrole, hgeneration, hdeadline, hflag]
    simp only [Id.fromSlice_asBytes, ofCode_code, i64Of_i64Bytes, fromUnixTimestamp_truncate,
      Option.bind_eq_bind, Option.bind_some]
    cases released <;> rfl
  unfold decodePresence
  rw [hparse, hlength, hversion, hflag]
  cases released <;> rfl

end Peerward.Relay
