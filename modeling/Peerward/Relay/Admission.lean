import Peerward.Relay.Protocol

/-!
# Size limits between Relays

A Relay admits a message of a Peer by the size of the record that brought it. It then binds the
authenticated source into it and hands it to a local session or wraps it for a backbone link, where
other limits apply. What is refused there ends the session or the link it was to be written to.
-/

namespace Peerward.Relay

open Peerward.Lib Peerward.Wire
open Peerward.Types (Id MeshId PeerId)

/-! ## Admission

A Peer's message is bounded, bound to its authenticated source, and sent on in an envelope of its own.
Every step may make it longer.
-/

def CONTROL_AUDIT_DESTINATION : Bytes := List.replicate 16 0

/-- Audit material for Control, which takes its own queue. -/
def normalizeControlAudit (meshId : MeshId) (envelope : ControlEnvelope) :
    Except RelayError (Option Bytes) :=
  match envelope.message with
  | some (.relayed message) =>
    if message.kind ≠ AUDIT then .ok none
    else do
      RelayError.ofWire message.validateFromPeer
      rejectIf (message.meshId ≠ meshId.asBytes || message.destinationPeer ≠ CONTROL_AUDIT_DESTINATION)
        (.wire .kindMismatch)
      return some message.frame
  | _ => .ok none

def normalizeDirectControl (meshId : MeshId) (source : PeerId) (envelope : ControlEnvelope) :
    Except RelayError (PeerId × ControlEnvelope) :=
  match envelope.message with
  | some (.relayed message) => do
    RelayError.ofWire message.validateFromPeer
    rejectIf (message.meshId ≠ meshId.asBytes) (.wire .kindMismatch)
    match Id.fromSlice message.destinationPeer with
    | none => .error (.wire .kindMismatch)
    | some destination =>
      rejectIf (destination = source) .noRoute
      return (destination,
        { envelope with message := some (.relayed (message.bindAuthenticatedSource source)) })
  | _ => .error (.wire .kindMismatch)

/-- The part of `route_peer_control` before the routing: what it routes, and where to. -/
def admitPeerControl (meshId : MeshId) (source : PeerId) (envelope : ControlEnvelope)
    (fresh : BitVec 64) : Except RelayError (Option (PeerId × ControlEnvelope)) := do
  if (← normalizeControlAudit meshId envelope).isSome then return none
  else
    let advanced ← RelayError.ofWire (envelope.advanceTrace fresh)
    return some (← normalizeDirectControl meshId source advanced)

/-! ## Lengths

Lengths are sums over the fields, whatever the fields contain. What grows on the way is the source and, with
it, the length fields around it.
-/

theorem ofWire_eq_ok {α : Type} {x : Except WireError α} {a : α} :
    RelayError.ofWire x = .ok a ↔ x = .ok a := by
  cases x <;> simp [RelayError.ofWire, Except.mapError]

/-- The encoded correlation. -/
def traceBytes (envelope : ControlEnvelope) : Bytes :=
  envelope.traceContext.elim [] fun trace => messageField 25 trace.encode

/-- A field that holds an identifier. -/
theorem length_idField {tag : Nat} {value : Bytes} (h : value.length = 16)
    (hkey : (fieldKey tag 2).length = 1) : (bytesField tag value).length = 18 := by
  rw [length_bytesField tag (List.ne_nil_of_length_eq_add_one h), hkey, h]
  rfl

/-- A valid correlation has the widths of the identifiers it is parsed to, whatever its span. -/
theorem length_child {trace : TraceContext} {context : CorrelationContext} (fresh : BitVec 64)
    (h : trace.tryIntoContext = some context) :
    (TraceContext.fromContext (context.child fresh)).encode.length = trace.encode.length ∧
      trace.encode.length ≤ 50 := by
  unfold TraceContext.tryIntoContext at h
  dsimp only at h
  split at h
  · rename_i hvalid
    simp only [Bool.and_eq_true, decide_eq_true_eq] at hvalid
    obtain ⟨⟨⟨⟨⟨⟨hrequest, htrace⟩, hspan⟩, hflags⟩, -⟩, -⟩, -⟩ := hvalid
    cases h
    have hbyte : (UInt8.ofNat trace.flags).toNat = trace.flags := UInt8.toNat_ofNat_of_lt' hflags
    have hwidth : ∀ (tag width n : Nat) (value : Bytes), value.length = width →
        (bytesField tag (toBE width n)).length = (bytesField tag value).length :=
      fun tag width n value h => length_bytesField_congr tag ((length_toBE width n).trans h.symm)
    have hspanLength : (bytesField 3 trace.spanId).length = 10 := by
      rw [length_bytesField 3 (List.ne_nil_of_length_eq_add_one hspan), hspan]
      rfl
    have hflagsLength : (uintField 4 trace.flags).length ≤ 4 := by
      unfold uintField
      split
      · exact Nat.zero_le _
      · rw [List.length_append, length_fieldKey_one (by decide)]
        have hvarint := @length_varint_le trace.flags (by omega)
        omega
    unfold TraceContext.encode TraceContext.fromContext CorrelationContext.child
    dsimp only
    rw [hbyte]
    simp only [List.length_append]
    rw [hwidth 1 16 _ _ hrequest, hwidth 2 16 _ _ htrace, hwidth 3 8 _ _ hspan]
    rw [length_idField hrequest rfl, length_idField htrace rfl, hspanLength]
    omega
  · cases h

/-- A new span id changes no length. -/
theorem advanceTrace_spec {envelope advanced : ControlEnvelope} {fresh : BitVec 64}
    (h : envelope.advanceTrace fresh = .ok advanced) :
    advanced.message = envelope.message ∧
      (traceBytes advanced).length = (traceBytes envelope).length ∧
      (traceBytes envelope).length ≤ 55 := by
  unfold ControlEnvelope.advanceTrace at h
  obtain ⟨found, hfound, h⟩ := bind_eq_ok.mp h
  unfold ControlEnvelope.correlationContext at hfound
  split at hfound
  · rename_i hnone
    cases hfound
    cases h
    refine ⟨rfl, rfl, ?_⟩
    rw [traceBytes, hnone]
    exact Nat.zero_le _
  · rename_i trace htrace
    split at hfound
    · cases hfound
    · rename_i context hparsed
      cases hfound
      cases h
      obtain ⟨hsame, hbound⟩ := length_child fresh hparsed
      have hkey : (fieldKey 25 2).length = 2 := rfl
      have hvarint := @length_varint_le trace.encode.length (by omega)
      unfold traceBytes
      rw [htrace]
      dsimp only [Option.elim_some]
      rw [length_messageField, length_messageField, hsame]
      exact ⟨rfl, rfl, by omega⟩

/-- What is no audit material is not of its kind. -/
theorem kind_of_normalizeControlAudit {meshId : MeshId} {envelope : ControlEnvelope}
    {message : RelayEnvelope} (hmessage : envelope.message = some (.relayed message))
    (h : normalizeControlAudit meshId envelope = .ok none) : message.kind ≠ AUDIT := by
  intro haudit
  unfold normalizeControlAudit at h
  rw [hmessage] at h
  dsimp only at h
  rw [if_neg (not_not.mpr haudit)] at h
  obtain ⟨_, -, h⟩ := bind_eq_ok.mp h
  obtain ⟨_, -, h⟩ := bind_eq_ok.mp h
  cases h

/-- What is admitted and what becomes of it. -/
theorem admit_spec {meshId : MeshId} {source destination : PeerId}
    {envelope normalized : ControlEnvelope} {fresh : BitVec 64}
    (h : admitPeerControl meshId source envelope fresh = .ok (some (destination, normalized))) :
    ∃ message, envelope.message = some (.relayed message) ∧ message.kind ≠ AUDIT ∧
      message.validateFromPeer = .ok () ∧
      normalized.message = some (.relayed (message.bindAuthenticatedSource source)) ∧
      (traceBytes normalized).length = (traceBytes envelope).length ∧
      (traceBytes envelope).length ≤ 55 := by
  unfold admitPeerControl at h
  obtain ⟨audit, haudit, h⟩ := bind_eq_ok.mp h
  split at h
  · cases h
  · next hsome =>
    rw [Bool.not_eq_true, Option.isSome_eq_false_iff, Option.isNone_iff_eq_none] at hsome
    rw [hsome] at haudit
    obtain ⟨advanced, hadvanced, h⟩ := bind_eq_ok.mp h
    obtain ⟨hmessage, htrace⟩ := advanceTrace_spec (ofWire_eq_ok.mp hadvanced)
    obtain ⟨routed, hrouted, h⟩ := bind_eq_ok.mp h
    cases h
    unfold normalizeDirectControl at hrouted
    split at hrouted
    · rename_i message hrelayed
      obtain ⟨_, hvalid, hrouted⟩ := bind_eq_ok.mp hrouted
      obtain ⟨_, -, hrouted⟩ := bind_eq_ok.mp hrouted
      split at hrouted
      · cases hrouted
      · obtain ⟨_, -, hrouted⟩ := bind_eq_ok.mp hrouted
        cases hrouted
        have hreceived : envelope.message = some (.relayed message) := hmessage ▸ hrelayed
        exact ⟨message, hreceived, kind_of_normalizeControlAudit hreceived haudit,
          ofWire_eq_ok.mp hvalid, rfl, htrace⟩
    · cases hrouted

/-- What `validate_from_peer` accepts. -/
theorem validateFromPeer_spec {message : RelayEnvelope} (h : message.validateFromPeer = .ok ()) :
    message.sourcePeer = [] ∧ message.major = 5 ∧ message.meshId.length = 16 ∧
      message.destinationPeer.length = 16 ∧ (message.kind = 1 ∨ message.kind = 2) ∧
      message.frame ≠ [] ∧ message.frame.length ≤ 65535 := by
  unfold RelayEnvelope.validateFromPeer RelayEnvelope.validateCommon at h
  obtain ⟨⟨⟩, hsource, h⟩ := bind_eq_ok.mp h
  obtain ⟨⟨⟩, hmajor, h⟩ := bind_eq_ok.mp h
  obtain ⟨⟨⟩, hids, hframe⟩ := bind_eq_ok.mp h
  simp only [rejectIf_eq_ok, Bool.or_eq_false_iff, decide_eq_false_iff_not, not_not,
    Bool.not_eq_false', Bool.and_eq_false_iff, List.isEmpty_iff] at hsource hmajor hids hframe
  obtain ⟨⟨hkind, hnonempty⟩, hbound⟩ := hframe
  refine ⟨hsource, hmajor, hids.1, hids.2, hkind, ?_, Nat.not_lt.mp hbound⟩
  intro hnil
  rw [hnil] at hnonempty
  cases hnonempty

/-- A session envelope is 39 bytes around its frame, and 18 more once its source is bound. -/
theorem length_valid {message : RelayEnvelope} (h : message.validateFromPeer = .ok ())
    (hsession : message.kind ≠ AUDIT) (source : PeerId) :
    message.encode.length = 39 + (varint message.frame.length).length + message.frame.length ∧
      (message.bindAuthenticatedSource source).encode.length = message.encode.length + 18 := by
  obtain ⟨hsource, hmajor, hmesh, hpeer, hkind, hframe, -⟩ := validateFromPeer_spec h
  have hmajorLength : (uintField 1 message.major).length = 2 := by
    rw [hmajor]
    rfl
  have hkindLength : (enumField 5 SESSION message.kind).length = 0 := by
    rw [hkind.resolve_right hsession]
    rfl
  have hmeshLength : (bytesField 2 message.meshId).length = 18 := length_idField hmesh rfl
  have hpeerLength : (bytesField 3 message.destinationPeer).length = 18 := length_idField hpeer rfl
  have hsourceLength : (bytesField 4 source.asBytes).length = 18 :=
    length_idField source.length_asBytes rfl
  have hnoSource : (bytesField 4 message.sourcePeer).length = 0 := by
    rw [hsource]
    rfl
  have hframeLength : (bytesField 6 message.frame).length
      = 1 + (varint message.frame.length).length + message.frame.length :=
    length_bytesField 6 hframe
  unfold RelayEnvelope.encode RelayEnvelope.bindAuthenticatedSource
  simp only [List.length_append]
  omega

theorem length_envelope {envelope : ControlEnvelope} {message : RelayEnvelope}
    (h : envelope.message = some (.relayed message)) :
    envelope.encode.length = 2 + (varint message.encode.length).length + message.encode.length
      + (traceBytes envelope).length := by
  unfold ControlEnvelope.encode
  rw [h, List.length_append]
  show (messageField 24 message.encode).length + _ = _
  rw [length_messageField]
  rfl

/-- The bound source takes 18 bytes, and one more where a length grows by a byte. -/
theorem length_normalized {meshId : MeshId} {source destination : PeerId}
    {envelope normalized : ControlEnvelope} {fresh : BitVec 64}
    (h : admitPeerControl meshId source envelope fresh = .ok (some (destination, normalized))) :
    normalized.encode.length ≤ 61396 ↔ envelope.encode.length ≤ 61378 := by
  obtain ⟨message, hmessage, hsession, hvalid, hnormalized, htrace, hcorrelation⟩ := admit_spec h
  obtain ⟨hlength, hbound⟩ := length_valid hvalid hsession source
  obtain ⟨-, -, -, -, -, -, hframe⟩ := validateFromPeer_spec hvalid
  rw [length_envelope hmessage, length_envelope hnormalized, htrace, hbound]
  have hvarint : (varint message.frame.length).length ≤ 3 := length_varint_le (by omega)
  have hbefore := @length_varint message.encode.length (by omega)
  have hafter := @length_varint (message.encode.length + 18) (by omega)
  -- both lengths take three bytes unless the message is far below the limit
  grind

/-! ## Writing

Where a message goes decides what is put around it. It can be written everywhere exactly when it is short
enough for the longest of these.
-/

/-- The payload is wrapped and the record with it is written. -/
def Writes (meshId : MeshId) (payload : BackbonePayload) : Prop :=
  ∃ envelope, backboneControlEnvelope meshId payload = .ok envelope ∧
    (Record.control envelope).encodePlaintext.isOk = true

/-- The routes that Relays make and accept for control messages. -/
structure BackboneRoute.WellFormed (route : BackboneRoute) : Prop where
  hopLimit : 1 ≤ route.hopLimit ∧ route.hopLimit ≤ 4
  visited : route.visited ≠ [] ∧ route.visited.length ≤ 4 ∧ route.visited.Nodup
  destination : route.destination.isSome = true

/-- Wherever the message goes, it can be written: to a local session, to the owner of its destination
in a full mesh, and to a neighbour in a sparse one. -/
def Deliverable (meshId : MeshId) (control : RoutedControl) : Prop :=
  (Record.control control.envelope).encodePlaintext.isOk = true ∧
    Writes meshId (.control control) ∧
    ∀ route : BackboneRoute, route.WellFormed → Writes meshId (.routedControl control route)

/-- A message of a mesh adds at most 31 bytes to a body of less than 2^21 bytes. -/
theorem length_meshMessage {tag : Nat} (meshId : MeshId) {body : Bytes}
    (hkey : (fieldKey tag 2).length = 1) (hbody : body ≠ []) (h : body.length < 2000000) :
    (messageField tag (meshBlob meshId.asBytes body)).length ≤ body.length + 31 := by
  have hmeshLength : (bytesField 1 meshId.asBytes).length = 18 :=
    length_idField meshId.length_asBytes rfl
  have hbodyKey : (fieldKey 2 2).length = 1 := rfl
  have hblob : (meshBlob meshId.asBytes body).length
      = 19 + (varint body.length).length + body.length := by
    unfold meshBlob
    rw [List.length_append, hmeshLength, length_bytesField 2 hbody, hbodyKey]
    omega
  have hvarint : (varint body.length).length ≤ 3 := length_varint_le (by omega)
  have houter : (varint (meshBlob meshId.asBytes body).length).length ≤ 3 :=
    length_varint_le (by omega)
  rw [length_messageField]
  omega

theorem length_controlBody {control : RoutedControl} {body : Bytes}
    (h : encodeControlBody control = .ok body) :
    control.envelope.encode.length ≤ 61440 ∧ body.length = 44 + control.envelope.encode.length := by
  unfold encodeControlBody MAX_BACKBONE_BODY at h
  dsimp only at h
  split at h
  · cases h
  · rw [← Except.ok.inj h]
    refine ⟨by omega, ?_⟩
    simp only [List.length_append, Id.length_asBytes, i64Bytes, length_toBE]

theorem encodeControlBody_ok {control : RoutedControl}
    (h : control.envelope.encode.length ≤ 61440) : ∃ body, encodeControlBody control = .ok body := by
  unfold encodeControlBody MAX_BACKBONE_BODY
  dsimp only
  rw [if_neg (by omega)]
  exact ⟨_, rfl⟩

theorem length_flatMap_asBytes (ids : List Id) : (ids.flatMap Id.asBytes).length = 16 * ids.length := by
  induction ids with
  | nil => rfl
  | cons id rest ih =>
      rw [List.flatMap_cons, List.length_append, Id.length_asBytes, ih, List.length_cons]
      omega

/-- A routed payload is bounded together with its own header. -/
theorem encodeRoutedPayload_ok {route : BackboneRoute} {payload : Bytes} (hroute : route.WellFormed)
    (h : payload.length ≤ 61440) :
    ∃ body, encodeRoutedPayload 1 route payload = .ok body ∧
      body ≠ [] ∧ body.length ≤ 112 + payload.length := by
  obtain ⟨hhops, ⟨hvisited, hcount, hunique⟩, hdestination⟩ := hroute
  unfold encodeRoutedPayload MAX_BACKBONE_BODY
  rw [if_neg, if_neg (not_not.mpr hunique)]
  · refine ⟨_, rfl, by simp, ?_⟩
    obtain ⟨destination, hsome⟩ := Option.isSome_iff_exists.mp hdestination
    rw [hsome]
    simp only [List.length_append, Option.elim_some, Id.length_asBytes, length_toBE,
      length_flatMap_asBytes, List.length_cons, List.length_nil]
    omega
  · have hnonempty : route.visited.isEmpty = false := by
      simpa using hvisited
    simp [hdestination, hnonempty, hcount, hhops.1, hhops.2, Nat.not_lt.mpr h]

theorem encodeRoutedPayload_length {route : BackboneRoute} {payload body : Bytes} {kind : UInt8}
    (h : encodeRoutedPayload kind route payload = .ok body) : payload.length ≤ 61440 := by
  unfold encodeRoutedPayload at h
  split at h
  · cases h
  · rename_i haccepted
    unfold MAX_BACKBONE_BODY at haccepted
    by_contra hlong
    refine haccepted ?_
    have hlarge : decide (payload.length > 60 * 1024) = true := decide_eq_true (by omega)
    rw [hlarge]
    simp

theorem writes_of_body {meshId : MeshId} {payload : BackbonePayload} {body : Bytes}
    (hkind : ∀ update, payload ≠ .presence update) (hbody : encodeBackbonePayload payload = .ok body)
    (hnonempty : body ≠ []) (hlength : body.length ≤ 65000) : Writes meshId payload := by
  refine ⟨{ message := some (.forwarded meshId.asBytes body) }, ?_, ?_⟩
  · have hwrapped : backbonePayloadEnvelope meshId payload
        = .ok { message := some (.forwarded meshId.asBytes body) } := by
      unfold backbonePayloadEnvelope
      rw [hbody]
      rfl
    cases payload with
    | presence update => exact absurd rfl (hkind update)
    | control | routedControl | routedPresence => exact hwrapped
  · rw [encodePlaintext_isOk]
    have hforwarded := @length_meshMessage 9 meshId body rfl hnonempty (by omega)
    show (messageField 9 (meshBlob meshId.asBytes body) ++ []).length ≤ _
    rw [List.append_nil]
    omega

/-- A message can be written everywhere exactly when it leaves room for the source, for the header
around a routed envelope, and for the smallest of the limits. -/
theorem deliverable_iff (meshId : MeshId) (control : RoutedControl) :
    Deliverable meshId control ↔ control.envelope.encode.length ≤ 61396 := by
  constructor
  · rintro ⟨-, -, hrouted⟩
    have hroute : BackboneRoute.WellFormed
        { origin := control.source, destination := some control.source, topologyRevision := 0
          hopLimit := 4, visited := [control.source] } :=
      ⟨⟨Nat.le_add_left 1 3, Nat.le_refl 4⟩, ⟨nofun, Nat.le_add_left 1 3, List.nodup_singleton _⟩, rfl⟩
    obtain ⟨envelope, hwrapped, -⟩ := hrouted _ hroute
    obtain ⟨body, hbody, -⟩ := bind_eq_ok.mp hwrapped
    obtain ⟨inner, hinner, hpayload⟩ := bind_eq_ok.mp hbody
    have hlimit := encodeRoutedPayload_length hpayload
    have hinnerLength := (length_controlBody hinner).2
    omega
  · intro h
    obtain ⟨inner, hinner⟩ := @encodeControlBody_ok control (by omega)
    have hinnerLength := (length_controlBody hinner).2
    refine ⟨(encodePlaintext_isOk _).mpr (by omega), ?_, fun route hroute => ?_⟩
    · refine @writes_of_body meshId _ (2 :: inner) nofun ?_ nofun ?_
      · show encodeLegacyForwardedControl control = _
        unfold encodeLegacyForwardedControl
        rw [hinner]
        rfl
      · rw [List.length_cons]
        omega
    · obtain ⟨body, hbody, hnonempty, hlength⟩ :=
        @encodeRoutedPayload_ok route inner hroute (by omega)
      refine writes_of_body nofun ?_ hnonempty (by omega)
      show (do encodeRoutedPayload 1 route (← encodeControlBody control)) = _
      rw [hinner]
      exact hbody

/-- No Peer's message ends another party's link, as long as the envelope it came in is at most 61378
bytes. -/
theorem admitted_is_deliverable_iff {meshId : MeshId} {source destination : PeerId}
    {envelope normalized : ControlEnvelope} {fresh : BitVec 64} (generation : Int64)
    (h : admitPeerControl meshId source envelope fresh = .ok (some (destination, normalized))) :
    Deliverable meshId ⟨source, destination, generation, normalized⟩
      ↔ envelope.encode.length ≤ 61378 :=
  (deliverable_iff meshId _).trans (length_normalized h)

section Examples

def meshOne : MeshId := ⟨0x00000000000040008000000000000001#128, Types.random_one⟩
def peerOne : PeerId := ⟨0x00000000000040008000000000000002#128, Types.random_two⟩
def peerTwo : PeerId := ⟨0x00000000000040008000000000000003#128, Types.random_three⟩

/-- A frame of the given length for `peerTwo`. -/
def framed (length : Nat) : RelayEnvelope where
  major := 5
  meshId := meshOne.asBytes
  destinationPeer := peerTwo.asBytes
  sourcePeer := []
  kind := 1
  frame := List.replicate length 0

def framedEnvelope (message : RelayEnvelope) : ControlEnvelope := { message := some (.relayed message) }

theorem validate_framed {length : Nat} (hpos : 0 < length) (h : length ≤ 65535) :
    (framed length).validateFromPeer = .ok () := by
  have hlength : ¬ length > MAX_OPAQUE_FRAME_LEN := Nat.not_lt.mpr h
  have hnonempty : (List.replicate length (0 : UInt8)).isEmpty = false := by
    simpa using Nat.pos_iff_ne_zero.mp hpos
  unfold RelayEnvelope.validateFromPeer RelayEnvelope.validateCommon framed
  dsimp only
  rw [hnonempty, List.length_replicate, decide_eq_false hlength]
  rfl

theorem admit_framed {length : Nat} (hpos : 0 < length) (h : length ≤ 65535) :
    admitPeerControl meshOne peerOne (framedEnvelope (framed length)) 7 = .ok (some (peerTwo,
      framedEnvelope ((framed length).bindAuthenticatedSource peerOne))) := by
  have hdestination : Id.fromSlice (framed length).destinationPeer = some peerTwo :=
    Id.fromSlice_asBytes peerTwo
  have hdirect : normalizeDirectControl meshOne peerOne (framedEnvelope (framed length))
      = .ok (peerTwo, framedEnvelope ((framed length).bindAuthenticatedSource peerOne)) := by
    show (do
      RelayError.ofWire (framed length).validateFromPeer
      rejectIf _ _
      match Id.fromSlice (framed length).destinationPeer with
      | none => _
      | some destination => _) = _
    rw [validate_framed hpos h, hdestination]
    rfl
  show (do
    let advanced ← RelayError.ofWire (.ok (framedEnvelope (framed length)))
    return some (← normalizeDirectControl meshOne peerOne advanced)) = _
  show (do
    return some (← normalizeDirectControl meshOne peerOne (framedEnvelope (framed length)))) = _
  rw [hdirect]
  rfl

/-- A frame that fills its record is admitted, and no link can carry it on. -/
theorem full_record_is_undeliverable :
    let message := framed 65468
    let normalized := framedEnvelope (message.bindAuthenticatedSource peerOne)
    (Record.control (framedEnvelope message)).encodePlaintext.isOk = true ∧
      admitPeerControl meshOne peerOne (framedEnvelope message) 7 = .ok (some (peerTwo, normalized)) ∧
      (Record.control normalized).encodePlaintext.isOk = false ∧
      ∀ generation, ¬ Deliverable meshOne ⟨peerOne, peerTwo, generation, normalized⟩ := by
  intro message normalized
  have hvalid : message.validateFromPeer = .ok () := validate_framed (by decide) (by decide)
  have hadmit := @admit_framed 65468 (by decide) (by decide)
  obtain ⟨hlength, hbound⟩ := length_valid hvalid (by decide) peerOne
  have hframe : message.frame.length = 65468 := List.length_replicate
  have hvarint := @length_varint_three message.frame.length (by omega) (by omega)
  have hbefore := @length_varint_three message.encode.length (by omega) (by omega)
  have hafter := @length_varint_three (message.bindAuthenticatedSource peerOne).encode.length
    (by omega) (by omega)
  have htrace : (traceBytes (framedEnvelope message)).length = 0 := rfl
  have hsameTrace : (traceBytes normalized).length = 0 := rfl
  have henvelope := @length_envelope (framedEnvelope message) message rfl
  have hnormalized := @length_envelope normalized (message.bindAuthenticatedSource peerOne) rfl
  refine ⟨(encodePlaintext_isOk _).mpr (by omega), hadmit, ?_, fun generation hdeliverable => ?_⟩
  · rw [← Bool.not_eq_true, encodePlaintext_isOk]
    omega
  · have hfits := (encodePlaintext_isOk normalized).mp hdeliverable.1
    omega

/-- A WireGuard datagram of 1500 bytes can be written wherever it goes. -/
theorem datagram_is_deliverable :
    Deliverable meshOne ⟨peerOne, peerTwo, 3,
      framedEnvelope ((framed 1500).bindAuthenticatedSource peerOne)⟩ := by
  have hvalid : (framed 1500).validateFromPeer = .ok () := validate_framed (by decide) (by decide)
  refine (admitted_is_deliverable_iff 3 (@admit_framed 1500 (by decide) (by decide))).mpr ?_
  have hlength := (length_valid hvalid (by decide) peerOne).1
  have hframe : (framed 1500).frame.length = 1500 := List.length_replicate
  have hvarint := @length_varint_le (framed 1500).frame.length (by omega)
  have houter := @length_varint_le (framed 1500).encode.length (by omega)
  have htrace : (traceBytes (framedEnvelope (framed 1500))).length = 0 := rfl
  have henvelope := @length_envelope (framedEnvelope (framed 1500)) (framed 1500) rfl
  omega

end Examples

end Peerward.Relay
