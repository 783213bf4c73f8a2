import Peerward.Relay.BackboneReads

/-!
# The backbone codec is exact

Both directions go through one description of a frame: the fields of a payload around the bytes of its
envelope (`frame`). The encoder writes the frame of the envelope it encodes, and whatever the decoder
accepts is the frame of what it returns, around the envelope bytes it gave to Prost.
-/

namespace Peerward.Relay

open Peerward.Lib Peerward.Wire
open Peerward.Types (Id MeshId PeerId RelayId)

variable {decode : EnvelopeDecoder} {body : Bytes}

/-! ## Frames

A payload without its envelope, and the bytes of the envelope. Frames are what the codec is exact on; the
envelope is Prost's, and what it does to it is a parameter.
-/

def controlBytes (control : RoutedControl) (envelope : Bytes) : Bytes :=
  control.source.asBytes ++ (control.destination.asBytes ++ (i64Bytes control.generation
    ++ (toBE 4 envelope.length ++ envelope)))

def routeBytes (route : BackboneRoute) : Bytes :=
  route.origin.asBytes ++ (route.destination.elim (List.replicate 16 0) Id.asBytes
    ++ (toBE 8 route.topologyRevision ++ (UInt8.ofNat route.hopLimit ::
      UInt8.ofNat route.visited.length :: route.visited.flatMap Id.asBytes)))

def routedBytes (kind : UInt8) (route : BackboneRoute) (payload : Bytes) : Bytes :=
  kind :: (routeBytes route ++ (toBE 4 payload.length ++ payload))

/-- The bytes of a payload whose envelope, if it has one, has these bytes. -/
def frame (envelope : Bytes) : BackbonePayload → Bytes
  | .control control => 2 :: controlBytes control envelope
  | .presence update => encodePresence update
  | .routedControl control route => 3 :: routedBytes 1 route (controlBytes control envelope)
  | .routedPresence update route => 3 :: routedBytes 2 route (encodePresence update)

/-- The control message of a payload. -/
def BackbonePayload.control? : BackbonePayload → Option RoutedControl
  | .control sent | .routedControl sent _ => some sent
  | .presence _ | .routedPresence _ _ => none

/-- The route of a payload. -/
def BackbonePayload.route? : BackbonePayload → Option BackboneRoute
  | .control _ | .presence _ => none
  | .routedControl _ route | .routedPresence _ route => some route

/-- What the other end reads: presence deadlines travel as whole seconds. -/
def BackbonePayload.received : BackbonePayload → BackbonePayload
  | .presence update => .presence update.received
  | .routedPresence update route => .routedPresence update.received route
  | payload => payload

theorem i64Bytes_i64Of {bytes : Bytes} (h : bytes.length = 8) : i64Bytes (i64Of bytes) = bytes := by
  have hlt : ofBE bytes < 2 ^ 64 := by
    have := ofBE_lt bytes
    rw [h] at this
    omega
  have hnat : (i64Of bytes).toBitVec.toNat = ofBE bytes := by
    show (BitVec.ofNat 64 (ofBE bytes)).toNat = ofBE bytes
    rw [BitVec.toNat_ofNat, Nat.mod_eq_of_lt hlt]
  rw [i64Bytes, hnat, toBE_ofBE_of_length h]

/-! ## Control bodies -/

theorem length_controlBytes (control : RoutedControl) (envelope : Bytes) :
    (controlBytes control envelope).length = 44 + envelope.length := by
  simp only [controlBytes, List.length_append, Id.length_asBytes, length_i64Bytes, length_toBE]
  omega

theorem decodeControlBody_controlBytes (control : RoutedControl) {envelope : Bytes}
    (h : envelope.length ≤ MAX_BACKBONE_BODY) (hdecode : decode envelope = some control.envelope) :
    decodeControlBody decode (controlBytes control envelope) = .ok control := by
  have hmax : MAX_BACKBONE_BODY < 256 ^ 4 := by decide
  have hlong := length_controlBytes control envelope
  generalize hbytes : controlBytes control envelope = bytes at hlong
  have h0 : bytes.drop 0 = control.source.asBytes ++ (control.destination.asBytes ++
      (i64Bytes control.generation ++ (toBE 4 envelope.length ++ envelope))) := hbytes.symm
  have h16 := drop_of_drop h0 (show 0 + _ = 16 by simp)
  have h32 := drop_of_drop h16 (show 16 + _ = 32 by simp)
  have h40 := drop_of_drop h32 (show 32 + _ = 40 by simp)
  have h44 := drop_of_drop h40 (show 40 + _ = 44 by simp)
  have hsource := slice_of_drop h0 (show 0 + _ = 16 by simp)
  have hdestination := slice_of_drop h16 (show 16 + _ = 32 by simp)
  have hgeneration := slice_of_drop h32 (show 32 + _ = 40 by simp)
  have hlength := slice_of_drop h40 (show 40 + _ = 44 by simp)
  have hshort : decide (44 + envelope.length < 44) = false := by simp
  have hfits : (decide (MAX_BACKBONE_BODY < envelope.length) ||
      decide (44 + envelope.length ≠ 44 + envelope.length)) = false := by
    simpa using h
  unfold decodeControlBody
  rw [hsource, hdestination, hgeneration, hlength, h44, hdecode, hlong,
    ofBE_toBE_of_lt (h.trans_lt hmax), i64Of_i64Bytes, hshort]
  simp only [readId, Id.fromSlice_asBytes, hfits]
  rfl

/-- What is accepted as a control body is its fields. -/
theorem controlBytes_of_decode {control : RoutedControl}
    (h : decodeControlBody decode body = .ok control) :
    body = controlBytes control (body.drop 44) ∧ decode (body.drop 44) = some control.envelope ∧
      (body.drop 44).length ≤ MAX_BACKBONE_BODY := by
  obtain ⟨hlong, hsource, hdestination, hbound, hsize, hdecode⟩ := decodeControlBody_eq_ok h
  have hgeneration : i64Bytes control.generation = slice body 32 40 := by
    unfold decodeControlBody at h
    obtain ⟨_, -, h⟩ := bind_eq_ok.mp h
    obtain ⟨_, -, h⟩ := bind_eq_ok.mp h
    obtain ⟨_, -, h⟩ := bind_eq_ok.mp h
    obtain ⟨_, -, h⟩ := bind_eq_ok.mp h
    split at h
    · cases h
    · rw [← Except.ok.inj h]
      refine i64Bytes_i64Of ?_
      rw [length_slice]
      omega
  have hlength : toBE 4 (body.drop 44).length = slice body 40 44 := by
    have hfour : (slice body 40 44).length = 4 := by
      rw [length_slice]
      omega
    have hdrop : (body.drop 44).length = ofBE (slice body 40 44) := by
      rw [List.length_drop]
      omega
    rw [hdrop, toBE_ofBE_of_length hfour]
  refine ⟨?_, hdecode, by rw [List.length_drop]; omega⟩
  rw [controlBytes, ← hsource, ← hdestination, hgeneration, hlength, ← drop_eq_slice_append body
    (by omega), ← drop_eq_slice_append body (by omega), ← drop_eq_slice_append body (by omega),
    ← drop_eq_slice_append body (by omega), List.drop_zero]

/-! ## Presence bodies -/

theorem code_of_ofCode {code : UInt8} {role : PresenceRole} (h : PresenceRole.ofCode code = some role) :
    role.code = code := by
  unfold PresenceRole.ofCode at h
  split at h
  · next hone => rw [← Option.some.inj h, hone]; rfl
  · split at h
    · next htwo => rw [← Option.some.inj h, htwo]; rfl
    · cases h

theorem flag_eq {b : UInt8} (h : b ≤ 1) : (if decide (b = 1) then (1 : UInt8) else 0) = b := by
  by_cases hone : b = 1
  · simp [hone]
  · have hle : b.toNat ≤ 1 := h
    have hne : b.toNat ≠ 1 := fun heq => hone (UInt8.toNat_inj.mp heq)
    have hzero : b = 0 := UInt8.toNat_inj.mp (by simpa using (by omega : b.toNat = 0))
    simp [hzero]

theorem encodePresence_of_decode {update : PresenceAnnouncement}
    (h : decodePresence body = .ok update) : encodePresence update = body := by
  unfold decodePresence at h
  split at h
  · cases h
  · next hhead =>
    simp only [Bool.or_eq_true, decide_eq_true_eq, not_or, not_not, UInt8.not_lt,
      gt_iff_lt] at hhead
    obtain ⟨⟨hlength, hversion⟩, hflag⟩ := hhead
    replace hlength : body.length = 67 := hlength
    split at h
    · cases h
    · next hparse =>
      cases h
      simp only [parsePresence, Option.bind_eq_bind, Option.bind_eq_some_iff] at hparse
      obtain ⟨peerId, hpeer, relayId, hrelay, attachmentId, hattachment, role, hrole, deadline,
        hdeadline, heq⟩ := hparse
      cases heq
      have hseconds : i64Bytes deadline.unixTimestamp = slice body 59 67 := by
        unfold OffsetDateTime.fromUnixTimestamp at hdeadline
        split at hdeadline
        · rw [← Option.some.inj hdeadline]
          exact i64Bytes_i64Of (by rw [length_slice]; omega)
        · cases hdeadline
      have hreleased := flag_eq hflag
      have hgeneration : i64Bytes (i64Of (slice body 51 59)) = slice body 51 59 :=
        i64Bytes_i64Of (by rw [length_slice]; omega)
      have hend : slice body 59 67 = body.drop 59 := by
        rw [drop_eq_slice_append body (show 59 ≤ 67 by omega),
          List.drop_eq_nil_of_le (show body.length ≤ 67 by omega), List.append_nil]
      simp only [encodePresence, hreleased, hgeneration, hseconds, code_of_ofCode hrole,
        Types.Id.asBytes_of_fromSlice hpeer, Types.Id.asBytes_of_fromSlice hrelay,
        Types.Id.asBytes_of_fromSlice hattachment, List.append_assoc, ← hversion]
      rw [hend, ← drop_eq_slice_append body (by omega), List.singleton_append,
        ← drop_eq_getD_cons body (by omega), ← drop_eq_slice_append body (by omega),
        ← drop_eq_slice_append body (by omega), ← drop_eq_slice_append body (by omega),
        List.cons_append, List.cons_append, List.nil_append, ← drop_eq_getD_cons body (by omega),
        ← drop_eq_getD_cons body (by omega), List.drop_zero]

/-! ## Routes

A route is read at fixed places behind its kind, with the limits that the encoder checks as well.
-/

/-- The limits both sides of the codec check. -/
structure BackboneRoute.Valid (route : BackboneRoute) : Prop where
  hopLimit_pos : 1 ≤ route.hopLimit
  hopLimit_le : route.hopLimit ≤ 4
  visited_pos : 1 ≤ route.visited.length
  visited_le : route.visited.length ≤ 4
  nodup : route.visited.Nodup

theorem getD_of_drop {bytes rest : Bytes} {i : Nat} {b : UInt8} (h : bytes.drop i = b :: rest) :
    bytes.getD i 0 = b := by
  have hget : (bytes.drop i)[0]? = some b := by rw [h]; rfl
  rw [List.getElem?_drop, Nat.add_zero] at hget
  rw [List.getD_eq_getElem?_getD, hget]
  rfl

theorem length_visitedBytes (ids : List RelayId) :
    (ids.flatMap Id.asBytes).length = ids.length * 16 := by
  rw [List.length_flatMap, List.map_congr_left (g := fun _ => 16) fun id _ => id.length_asBytes]
  simp

theorem readDestination_elim (destination : Option RelayId) :
    readDestination (destination.elim (List.replicate 16 0) Id.asBytes) = .ok destination := by
  cases destination with
  | none => rfl
  | some id =>
      have hread : Id.fromSlice (List.replicate 16 0) = none := by decide +kernel
      have hne : id.asBytes ≠ List.replicate 16 0 := by
        intro heq
        rw [← heq, Id.fromSlice_asBytes] at hread
        cases hread
      simp only [Option.elim_some, readDestination, if_neg hne, readId, Id.fromSlice_asBytes]
      rfl

theorem readId_asBytes (id : Id) : readId id.asBytes = .ok id := by
  rw [readId, Id.fromSlice_asBytes]

theorem mapM_readId (ids : List RelayId) : (ids.map Id.asBytes).mapM readId = .ok ids := by
  induction ids with
  | nil => rfl
  | cons id ids ih =>
      rw [List.map_cons, List.mapM_cons, readId_asBytes, ih]
      rfl

/-- The places of the fields behind the kind. -/
structure Placed (bytes : Bytes) (kind : UInt8) (route : BackboneRoute) (payload : Bytes) : Prop where
  length : bytes.length = 47 + route.visited.length * 16 + payload.length
  kind : bytes.getD 0 0 = kind
  origin : slice bytes 1 17 = route.origin.asBytes
  destination : slice bytes 17 33 = route.destination.elim (List.replicate 16 0) Id.asBytes
  revision : slice bytes 33 41 = toBE 8 route.topologyRevision
  hopLimit : bytes.getD 41 0 = UInt8.ofNat route.hopLimit
  count : bytes.getD 42 0 = UInt8.ofNat route.visited.length
  visited : slice bytes 43 (43 + route.visited.length * 16) = route.visited.flatMap Id.asBytes
  size : slice bytes (43 + route.visited.length * 16) (43 + route.visited.length * 16 + 4) =
    toBE 4 payload.length
  payload : bytes.drop (43 + route.visited.length * 16 + 4) = payload

theorem length_destination (destination : Option RelayId) :
    (destination.elim (List.replicate 16 0) Id.asBytes : Bytes).length = 16 := by
  cases destination <;> simp

theorem placed (kind : UInt8) (route : BackboneRoute) (payload : Bytes) :
    Placed (routedBytes kind route payload) kind route payload := by
  have hvisited := length_visitedBytes route.visited
  have hdestination := length_destination route.destination
  have hlength : (routedBytes kind route payload).length =
      47 + route.visited.length * 16 + payload.length := by
    simp only [routedBytes, routeBytes, List.length_cons, List.length_append, Id.length_asBytes,
      hdestination, hvisited, length_toBE]
    omega
  generalize hbytes : routedBytes kind route payload = bytes at hlength
  have h1 : bytes.drop 1 = route.origin.asBytes ++
      (route.destination.elim (List.replicate 16 0) Id.asBytes ++ (toBE 8 route.topologyRevision ++
        (UInt8.ofNat route.hopLimit :: UInt8.ofNat route.visited.length ::
          (route.visited.flatMap Id.asBytes ++ (toBE 4 payload.length ++ payload))))) := by
    rw [← hbytes, routedBytes, routeBytes, List.drop_succ_cons, List.drop_zero]
    simp only [List.append_assoc, List.cons_append]
  have h17 := drop_of_drop h1 (show 1 + _ = 17 by simp)
  have h33 := drop_of_drop h17 (show 17 + _ = 33 by rw [hdestination])
  have h41 := drop_of_drop h33 (show 33 + _ = 41 by simp)
  have h42 : bytes.drop 42 = UInt8.ofNat route.visited.length ::
      (route.visited.flatMap Id.asBytes ++ (toBE 4 payload.length ++ payload)) :=
    @drop_of_drop _ [UInt8.ofNat route.hopLimit] _ _ 42 h41 rfl
  have h43 := @drop_of_drop _ [UInt8.ofNat route.visited.length] _ _ 43 h42 rfl
  have hsize := drop_of_drop h43 (show 43 + _ = 43 + route.visited.length * 16 by rw [hvisited])
  refine ⟨hlength, ?_, slice_of_drop h1 (by simp), slice_of_drop h17 (by rw [hdestination]),
    slice_of_drop h33 (by simp), getD_of_drop h41, getD_of_drop h42,
    slice_of_drop h43 (by rw [hvisited]), slice_of_drop hsize (by simp),
    drop_of_drop hsize (by simp)⟩
  rw [← hbytes]
  rfl

theorem toNat_ofNat {n : Nat} (h : n ≤ 4) : (UInt8.ofNat n).toNat = n := by
  rw [UInt8.toNat_ofNat']
  omega

theorem decodeRoute_routedBytes {route : BackboneRoute} (h : route.Valid)
    (hrevision : route.topologyRevision < 2 ^ 64) (kind : UInt8) (payload : Bytes) :
    decodeRoute (routedBytes kind route payload) = .ok route ∧
      visitedCount (routedBytes kind route payload) = route.visited.length := by
  have hplaced := placed kind route payload
  have hcount : visitedCount (routedBytes kind route payload) = route.visited.length := by
    rw [visitedCount, hplaced.count, toNat_ofNat h.visited_le]
  refine ⟨?_, hcount⟩
  have hchunks : chunks (route.visited.flatMap Id.asBytes) 16 = route.visited.map Id.asBytes :=
    chunks_flatMap (by omega) fun id _ => id.length_asBytes
  have hbounds : (!(decide (1 ≤ route.hopLimit) && decide (route.hopLimit ≤ 4)) ||
      !(decide (1 ≤ route.visited.length) && decide (route.visited.length ≤ 4))) = false := by
    simp [h.hopLimit_pos, h.hopLimit_le, h.visited_pos, h.visited_le]
  have hlong : decide (47 + route.visited.length * 16 + payload.length <
      43 + route.visited.length * 16 + 4) = false :=
    decide_eq_false (by omega)
  unfold decodeRoute
  rw [routeLength, hcount, hplaced.origin, hplaced.destination, hplaced.hopLimit, hplaced.visited,
    hplaced.revision, hplaced.length, hchunks, mapM_readId, readId_asBytes, readDestination_elim,
    toNat_ofNat h.hopLimit_le, ofBE_toBE_of_lt (by simpa using hrevision)]
  simp only [ok_bind, hbounds, hlong, h.nodup, not_true, decide_false]
  rfl

theorem map_asBytes_of_read {pieces : List Bytes} {ids : List RelayId}
    (h : List.Forall₂ (fun bytes id => readId bytes = .ok id) pieces ids) :
    ids.map Id.asBytes = pieces := by
  induction h with
  | nil => rfl
  | cons hid _ ih => rw [List.map_cons, ih, readId_eq_ok hid]

/-- An accepted route is within the limits, and its bytes are those before the payload. -/
theorem routeBytes_of_decode {route : BackboneRoute} (h : decodeRoute body = .ok route) :
    route.Valid ∧ route.topologyRevision < 2 ^ 64 ∧ visitedCount body = route.visited.length ∧
      body.drop 1 = routeBytes route ++ body.drop (routeLength body - 4) := by
  obtain ⟨⟨hpos, hle⟩, ⟨hvisitedPos, hvisitedLe⟩, hlong⟩ := decodeRoute_eq_ok h
  unfold decodeRoute at h
  obtain ⟨origin, horigin, h⟩ := bind_eq_ok.mp h
  obtain ⟨destination, hdestination, h⟩ := bind_eq_ok.mp h
  obtain ⟨_, -, h⟩ := bind_eq_ok.mp h
  obtain ⟨_, -, h⟩ := bind_eq_ok.mp h
  obtain ⟨visited, hvisited, h⟩ := bind_eq_ok.mp h
  obtain ⟨_, hnodup, h⟩ := bind_eq_ok.mp h
  rw [rejectIf_eq_ok, decide_eq_false_iff_not, not_not] at hnodup
  cases Except.ok.inj h
  unfold routeLength at hlong
  have hread := forall₂_of_mapM hvisited
  have hcount : visited.length = visitedCount body := by
    have hlength := hread.length_eq
    rw [length_chunks, length_slice, divCeil] at hlength
    omega
  have hbytes : visited.flatMap Id.asBytes = slice body 43 (43 + visitedCount body * 16) := by
    have hmap : visited.map Id.asBytes =
        chunks (slice body 43 (43 + visitedCount body * 16)) 16 := map_asBytes_of_read hread
    rw [List.flatMap_def, hmap, flatten_chunks _ (by omega)]
  have hdest : destination.elim (List.replicate 16 0) Id.asBytes = slice body 17 33 := by
    unfold readDestination at hdestination
    split at hdestination
    · next hzero =>
      cases hdestination
      exact hzero.symm
    · obtain ⟨id, hid, hsome⟩ := map_eq_ok.mp hdestination
      rw [← hsome]
      exact (readId_eq_ok hid).symm
  have height : (slice body 33 41).length = 8 := by
    rw [length_slice]
    omega
  have hrevision : toBE 8 (ofBE (slice body 33 41)) = slice body 33 41 := toBE_ofBE_of_length height
  refine ⟨⟨hpos, hle, hcount ▸ hvisitedPos, hcount ▸ hvisitedLe, hnodup⟩, ?_, hcount.symm, ?_⟩
  · have hlt := ofBE_lt (slice body 33 41)
    rw [height] at hlt
    exact hlt
  · have hstop : routeLength body - 4 = 43 + visitedCount body * 16 := by
      unfold routeLength
      omega
    rw [hstop, routeBytes]
    dsimp only
    rw [hdest, hrevision, hcount, hbytes, ← readId_eq_ok horigin, UInt8.ofNat_toNat]
    have hbyte : UInt8.ofNat (visitedCount body) = body.getD 42 0 := UInt8.ofNat_toNat
    rw [hbyte]
    simp only [List.append_assoc, List.cons_append]
    rw [← drop_eq_slice_append body (by omega), ← drop_eq_getD_cons body (by omega),
      ← drop_eq_getD_cons body (by omega), ← drop_eq_slice_append body (by omega),
      ← drop_eq_slice_append body (by omega), ← drop_eq_slice_append body (by omega)]

/-! ## Payloads

A routed payload is a route and another payload, which is not routed again. So reading needs two levels and
no recursion.
-/

/-- Reading a payload behind its route. -/
def decodeRoutedBody (decode : EnvelopeDecoder) (kind : UInt8) (route : BackboneRoute)
    (payload : Bytes) : Except RelayError BackbonePayload :=
  match kind, route.destination with
  | 1, some _ => (decodeControlBody decode payload).map (.routedControl · route)
  | 2, none => (decodePresence payload).map (.routedPresence · route)
  | _, _ => .error .malformedForwarded

theorem decodeRoutedPayload_routedBytes {route : BackboneRoute} (h : route.Valid)
    (hrevision : route.topologyRevision < 2 ^ 64) (kind : UInt8) {payload : Bytes}
    (hpayload : payload.length ≤ MAX_BACKBONE_BODY) :
    decodeRoutedPayload decode (routedBytes kind route payload) =
      decodeRoutedBody decode kind route payload := by
  obtain ⟨hroute, hcount⟩ := decodeRoute_routedBytes h hrevision kind payload
  have hplaced := placed kind route payload
  have hmax : MAX_BACKBONE_BODY < 256 ^ 4 := by decide
  have hlong : decide (47 + route.visited.length * 16 + payload.length < 47) = false :=
    decide_eq_false (by omega)
  have hstop : 43 + route.visited.length * 16 + 4 - 4 = 43 + route.visited.length * 16 := by omega
  have hfits : (decide (MAX_BACKBONE_BODY < payload.length) ||
      decide (47 + route.visited.length * 16 + payload.length ≠
        43 + route.visited.length * 16 + 4 + payload.length)) = false := by
    rw [Bool.or_eq_false_iff, decide_eq_false_iff_not, decide_eq_false_iff_not]
    omega
  unfold decodeRoutedPayload
  rw [hroute, routeLength, hcount, hplaced.length, hlong, hstop, hplaced.size,
    ofBE_toBE_of_lt (hpayload.trans_lt hmax), hplaced.payload, hplaced.kind]
  simp only [ok_bind, hfits]
  unfold decodeRoutedBody
  generalize route.destination = destination
  by_cases hcontrol : kind = 1
  · subst hcontrol
    cases destination <;> rfl
  · by_cases hpresence : kind = 2
    · subst hpresence
      cases destination <;> rfl
    · -- neither kind on either side
      simp only [hcontrol, imp_false, IsEmpty.forall_iff, implies_true, hpresence]
      rfl

/-- An accepted routed payload is its route and its payload. -/
theorem routedBytes_of_decode {p : BackbonePayload} (h : decodeRoutedPayload decode body = .ok p) :
    ∃ kind route payload, body = routedBytes kind route payload ∧ route.Valid ∧
      route.topologyRevision < 2 ^ 64 ∧ payload.length ≤ MAX_BACKBONE_BODY ∧
      decodeRoutedBody decode kind route payload = .ok p := by
  have hread := h
  unfold decodeRoutedPayload at h
  obtain ⟨_, hshort, h⟩ := bind_eq_ok.mp h
  obtain ⟨route, hroute, h⟩ := bind_eq_ok.mp h
  obtain ⟨_, hsize, h⟩ := bind_eq_ok.mp h
  rw [rejectIf_eq_ok, decide_eq_false_iff_not, Nat.not_lt] at hshort
  rw [rejectIf_eq_ok, Bool.or_eq_false_iff, decide_eq_false_iff_not, decide_eq_false_iff_not,
    Nat.not_lt, not_not] at hsize
  obtain ⟨hvalid, hrevision, hcount, hbytes⟩ := routeBytes_of_decode hroute
  have hpayload : (body.drop (routeLength body)).length =
      ofBE (slice body (routeLength body - 4) (routeLength body)) := by
    rw [List.length_drop]
    omega
  have hfour : (slice body (routeLength body - 4) (routeLength body)).length = 4 := by
    rw [length_slice]
    have : 4 ≤ routeLength body := by unfold routeLength; omega
    omega
  have hlength : toBE 4 (body.drop (routeLength body)).length =
      slice body (routeLength body - 4) (routeLength body) := by
    rw [hpayload, toBE_ofBE_of_length hfour]
  have hbody : body = routedBytes (body.getD 0 0) route (body.drop (routeLength body)) := by
    rw [routedBytes, hlength, ← drop_eq_slice_append body (by omega), ← hbytes,
      ← drop_eq_getD_cons body (by omega), List.drop_zero]
  refine ⟨body.getD 0 0, route, body.drop (routeLength body), hbody, hvalid, hrevision,
    by rw [hpayload]; exact hsize.1, ?_⟩
  rw [← decodeRoutedPayload_routedBytes hvalid hrevision _ (by rw [hpayload]; exact hsize.1), ← hbody]
  exact hread

/-- The payload can travel around an envelope of these bytes. -/
structure Framed (decode : EnvelopeDecoder) (envelope : Bytes) (p : BackbonePayload) : Prop where
  sent : ∀ update, p ≠ .presence update
  control : ∀ control, p.control? = some control →
    decode envelope = some control.envelope ∧ envelope.length ≤ MAX_BACKBONE_BODY
  route : ∀ route, p.route? = some route → route.Valid ∧ route.topologyRevision < 2 ^ 64 ∧
    route.destination.isSome = p.control?.isSome ∧
    (p.control?.isSome = true → 44 + envelope.length ≤ MAX_BACKBONE_BODY)

theorem length_encodePresence_le (update : PresenceAnnouncement) :
    (encodePresence update).length ≤ MAX_BACKBONE_BODY := by
  simp only [encodePresence, List.length_append, List.length_cons, List.length_nil, Id.length_asBytes,
    length_i64Bytes]
  decide

/-- **Reading a frame.** -/
theorem decode_frame {envelope : Bytes} {p : BackbonePayload} (h : Framed decode envelope p) :
    decodeBackbonePayload decode (frame envelope p) = .ok p.received := by
  cases p with
  | control control =>
      obtain ⟨hdecode, hlength⟩ := h.control control rfl
      rw [frame, decodeBackbonePayload, decodeControlBody_controlBytes control hlength hdecode]
      rfl
  | presence update => exact absurd rfl (h.sent update)
  | routedControl control route =>
      obtain ⟨hdecode, hlength⟩ := h.control control rfl
      obtain ⟨hvalid, hrevision, hdestination, hfits⟩ := h.route route rfl
      obtain ⟨destination, hsome⟩ := Option.isSome_iff_exists.mp hdestination
      have hpayload : (controlBytes control envelope).length ≤ MAX_BACKBONE_BODY := by
        rw [length_controlBytes]
        exact hfits rfl
      rw [frame, decodeBackbonePayload, decodeRoutedPayload_routedBytes hvalid hrevision _ hpayload]
      simp only [decodeRoutedBody, hsome, decodeControlBody_controlBytes control hlength hdecode]
      rfl
  | routedPresence update route =>
      obtain ⟨hvalid, hrevision, hdestination, -⟩ := h.route route rfl
      have hnone : route.destination = none :=
        Option.isNone_iff_eq_none.mp (Option.isSome_eq_false_iff.mp hdestination)
      rw [frame, decodeBackbonePayload, decodeRoutedPayload_routedBytes hvalid hrevision _
        (length_encodePresence_le update)]
      simp only [decodeRoutedBody, hnone, decodePresence_encodePresence]
      rfl

/-- What is read as an announcement has whole seconds. -/
theorem received_of_decode {update : PresenceAnnouncement} (h : decodePresence body = .ok update) :
    update.received = update := by
  have hback := decodePresence_encodePresence update
  rw [encodePresence_of_decode h, h] at hback
  exact (Except.ok.inj hback).symm

/-- **What was read is a frame.** -/
theorem frame_of_decode {p : BackbonePayload} (h : decodeBackbonePayload decode body = .ok p) :
    ∃ envelope, body = frame envelope p ∧ Framed decode envelope p ∧ p.received = p := by
  unfold decodeBackbonePayload at h
  split at h
  · next rest =>
    obtain ⟨control, hcontrol, rfl⟩ := map_eq_ok.mp h
    obtain ⟨hrest, hdecode, hlength⟩ := controlBytes_of_decode hcontrol
    refine ⟨rest.drop 44, by rw [frame, ← hrest], ⟨nofun, ?_, nofun⟩, rfl⟩
    rintro _ ⟨⟩
    exact ⟨hdecode, hlength⟩
  · next rest =>
    obtain ⟨kind, route, payload, rfl, hvalid, hrevision, hlength, hbody⟩ := routedBytes_of_decode h
    unfold decodeRoutedBody at hbody
    split at hbody
    · next hkind hdestination =>
      obtain ⟨control, hcontrol, rfl⟩ := map_eq_ok.mp hbody
      obtain ⟨hrest, hdecode, henvelope⟩ := controlBytes_of_decode hcontrol
      rw [hrest, length_controlBytes] at hlength
      refine ⟨payload.drop 44, by rw [frame, ← hrest], ⟨nofun, ?_, ?_⟩, rfl⟩
      · rintro _ ⟨⟩
        exact ⟨hdecode, henvelope⟩
      · rintro _ ⟨⟩
        exact ⟨hvalid, hrevision, by rw [hdestination]; rfl, fun _ => hlength⟩
    · next hkind hdestination =>
      obtain ⟨update, hupdate, rfl⟩ := map_eq_ok.mp hbody
      refine ⟨[], by rw [frame, encodePresence_of_decode hupdate], ⟨nofun, nofun, ?_⟩, ?_⟩
      · rintro _ ⟨⟩
        exact ⟨hvalid, hrevision, by rw [hdestination]; rfl, nofun⟩
      · rw [BackbonePayload.received, received_of_decode hupdate]
    · cases hbody
  · cases h

/-! ## Both directions

What is written is read as it was, and what is read is written again as it was, up to the spelling of the
envelope.
-/

/-- The bytes of the envelope that the encoder writes. -/
def BackbonePayload.envelopeBytes (p : BackbonePayload) : Bytes :=
  p.control?.elim [] fun control => control.envelope.encode

/-- The limits of the encoder, around an envelope of these bytes. -/
structure Fits (envelope : Bytes) (p : BackbonePayload) : Prop where
  sent : ∀ update, p ≠ .presence update
  control : p.control?.isSome = true → envelope.length ≤ MAX_BACKBONE_BODY
  route : ∀ route, p.route? = some route → route.Valid ∧
    route.destination.isSome = p.control?.isSome ∧
    (p.control?.isSome = true → 44 + envelope.length ≤ MAX_BACKBONE_BODY)

theorem encodeControlBody_eq (control : RoutedControl) : encodeControlBody control =
    if MAX_BACKBONE_BODY < control.envelope.encode.length then .error .queueFull
    else .ok (controlBytes control control.envelope.encode) := by
  simp only [encodeControlBody, controlBytes, List.append_assoc, gt_iff_lt]

theorem encodeRoutedPayload_eq_ok {kind : UInt8} {route : BackboneRoute} {payload b : Bytes} :
    encodeRoutedPayload kind route payload = .ok b ↔ route.Valid ∧ payload.length ≤ MAX_BACKBONE_BODY ∧
      decide (kind = 1) = route.destination.isSome ∧ b = 3 :: routedBytes kind route payload := by
  have hbytes : [3, kind] ++ route.origin.asBytes
      ++ route.destination.elim (List.replicate 16 0) Id.asBytes ++ toBE 8 route.topologyRevision
      ++ [UInt8.ofNat route.hopLimit, UInt8.ofNat route.visited.length]
      ++ route.visited.flatMap Id.asBytes ++ toBE 4 payload.length ++ payload =
        3 :: routedBytes kind route payload := by
    simp only [routedBytes, routeBytes, List.append_assoc, List.cons_append, List.nil_append]
  unfold encodeRoutedPayload
  rw [hbytes]
  constructor
  · intro h
    split at h
    · cases h
    · next hlimits =>
      simp only [Bool.or_eq_true, not_or, Bool.not_eq_true, Bool.not_eq_false', Bool.and_eq_true,
        decide_eq_true_eq, List.isEmpty_eq_false_iff, not_not] at hlimits
      obtain ⟨⟨⟨⟨⟨hpos, hle⟩, hvisited⟩, hcount⟩, hlength⟩, hkind⟩ := hlimits
      split at h
      · cases h
      · next hnodup =>
        rw [not_not] at hnodup
        exact ⟨⟨hpos, hle, List.length_pos_iff.mpr hvisited, by omega, hnodup⟩, by omega, hkind,
          (Except.ok.inj h).symm⟩
  · rintro ⟨hvalid, hlength, hkind, rfl⟩
    have hlimits : ¬ (!(decide (1 ≤ route.hopLimit) && decide (route.hopLimit ≤ 4)) ||
        route.visited.isEmpty || decide (route.visited.length > 4) ||
        decide (payload.length > MAX_BACKBONE_BODY) ||
        decide (decide (kind = 1) ≠ route.destination.isSome)) = true := by
      have hvisited : route.visited ≠ [] := List.length_pos_iff.mp hvalid.visited_pos
      simp [hvalid.hopLimit_pos, hvalid.hopLimit_le, hvalid.visited_le, hvisited, hlength, hkind]
    rw [if_neg hlimits, if_neg (not_not.mpr hvalid.nodup)]

/-- **What the encoder accepts, and writes.** -/
theorem encode_eq_ok {p : BackbonePayload} {b : Bytes} :
    encodeBackbonePayload p = .ok b ↔ Fits p.envelopeBytes p ∧ b = frame p.envelopeBytes p := by
  cases p with
  | control control =>
      have hsome : (BackbonePayload.control control).envelopeBytes = control.envelope.encode := rfl
      rw [encodeBackbonePayload, encodeLegacyForwardedControl, encodeControlBody_eq, hsome, frame]
      constructor
      · intro h
        split at h
        · cases h
        · next hlength =>
          exact ⟨⟨by rintro _ ⟨⟩, fun _ => Nat.not_lt.mp hlength, by rintro _ ⟨⟩⟩, (Except.ok.inj h).symm⟩
      · rintro ⟨hfits, rfl⟩
        rw [if_neg (Nat.not_lt.mpr (hfits.control rfl))]
        rfl
  | presence update => exact ⟨by rintro ⟨⟩, fun h => absurd rfl (h.1.sent update)⟩
  | routedControl control route =>
      have hsome : (BackbonePayload.routedControl control route).envelopeBytes =
          control.envelope.encode := rfl
      rw [encodeBackbonePayload, encodeControlBody_eq, hsome, frame]
      constructor
      · intro h
        split at h
        · cases h
        · next hlength =>
          rw [ok_bind, encodeRoutedPayload_eq_ok, length_controlBytes] at h
          obtain ⟨hvalid, hpayload, hkind, rfl⟩ := h
          refine ⟨⟨by rintro _ ⟨⟩, fun _ => Nat.not_lt.mp hlength, ?_⟩, rfl⟩
          rintro _ ⟨⟩
          exact ⟨hvalid, hkind.symm, fun _ => hpayload⟩
      · rintro ⟨hfits, rfl⟩
        obtain ⟨hvalid, hdestination, hpayload⟩ := hfits.route route rfl
        rw [if_neg (Nat.not_lt.mpr (hfits.control rfl)), ok_bind, encodeRoutedPayload_eq_ok,
          length_controlBytes]
        exact ⟨hvalid, hpayload rfl, hdestination.symm, rfl⟩
  | routedPresence update route =>
      rw [encodeBackbonePayload, encodeRoutedPayload_eq_ok, frame]
      constructor
      · rintro ⟨hvalid, -, hkind, rfl⟩
        refine ⟨⟨by rintro _ ⟨⟩, by rintro ⟨⟩, ?_⟩, rfl⟩
        rintro _ ⟨⟩
        exact ⟨hvalid, hkind.symm, by rintro ⟨⟩⟩
      · rintro ⟨hfits, rfl⟩
        obtain ⟨hvalid, hdestination, -⟩ := hfits.route route rfl
        exact ⟨hvalid, length_encodePresence_le update, hdestination.symm, rfl⟩

theorem Framed.fits {envelope : Bytes} {p : BackbonePayload} (h : Framed decode envelope p) :
    Fits envelope p where
  sent := h.sent
  control hsome := by
    obtain ⟨control, hcontrol⟩ := Option.isSome_iff_exists.mp hsome
    exact (h.control control hcontrol).2
  route route hroute :=
    have ⟨hvalid, _, hdestination, hlength⟩ := h.route route hroute
    ⟨hvalid, hdestination, hlength⟩

/-- The same payload around another envelope. -/
theorem Framed.fits_within {envelope other : Bytes} {p : BackbonePayload} (h : Framed decode envelope p)
    (hlength : p.control?.isSome = true → 44 + other.length ≤ MAX_BACKBONE_BODY) : Fits other p where
  sent := h.sent
  control hsome := by
    have := hlength hsome
    omega
  route route hroute :=
    have ⟨hvalid, _, hdestination, _⟩ := h.route route hroute
    ⟨hvalid, hdestination, hlength⟩

theorem frame_congr {p : BackbonePayload} (h : ¬ p.control?.isSome = true) {envelope other : Bytes} :
    frame envelope p = frame other p := by
  cases p with
  | control | routedControl => exact absurd rfl h
  | presence | routedPresence => rfl

/-- The backbone codec: what a Relay sends is read as it was sent; what is read is the frame of what is
sent again, around an envelope that may not be the canonical one; and no read is outside the bytes. -/
theorem backbone_payload_exact (decode : EnvelopeDecoder) :
    (∀ p b, encodeBackbonePayload p = .ok b →
      (∀ route, p.route? = some route → route.topologyRevision < 2 ^ 64) →
      (∀ control, p.control? = some control →
        decode control.envelope.encode = some control.envelope) →
      decodeBackbonePayload decode b = .ok p.received) ∧
    (∀ b p, decodeBackbonePayload decode b = .ok p → ∃ envelope, b = frame envelope p ∧
      (∀ control, p.control? = some control → decode envelope = some control.envelope) ∧
      (encodeBackbonePayload p = .ok b ∨ ∃ control, p.control? = some control ∧
        envelope ≠ control.envelope.encode ∧
        (encodeBackbonePayload p = .ok (frame control.envelope.encode p) ∨
          MAX_BACKBONE_BODY < 44 + control.envelope.encode.length))) ∧
    ∀ b, Checked.payloadAt decode b = Bounded.checked (decodeBackbonePayload decode b) ∧
      Checked.payloadAt decode b ≠ .error .outOfBounds := by
  refine ⟨?_, ?_, ?_⟩
  · intro p b hencode hrevision hdecode
    obtain ⟨hfits, rfl⟩ := encode_eq_ok.mp hencode
    have henvelope : ∀ control, p.control? = some control →
        p.envelopeBytes = control.envelope.encode := by
      intro control hsome
      rw [BackbonePayload.envelopeBytes, hsome, Option.elim_some]
    refine decode_frame ⟨hfits.sent, fun control hsome => ⟨?_, ?_⟩, fun route hroute => ?_⟩
    · rw [henvelope control hsome]
      exact hdecode control hsome
    · exact hfits.control (by rw [hsome]; rfl)
    · obtain ⟨hvalid, hdestination, hlength⟩ := hfits.route route hroute
      exact ⟨hvalid, hrevision route hroute, hdestination, hlength⟩
  · intro b p hdecode
    obtain ⟨envelope, rfl, hframed, -⟩ := frame_of_decode hdecode
    refine ⟨envelope, rfl, fun control hsome => (hframed.control control hsome).1, ?_⟩
    cases hcontrol : p.control? with
    | none =>
        have hbytes : p.envelopeBytes = [] := by
          rw [BackbonePayload.envelopeBytes, hcontrol, Option.elim_none]
        refine .inl (encode_eq_ok.mpr ⟨?_, frame_congr (Option.not_isSome_iff_eq_none.mpr hcontrol)⟩)
        rw [hbytes]
        exact hframed.fits_within fun hsome => absurd hcontrol (Option.isSome_iff_ne_none.mp hsome)
    | some control =>
        have hbytes : p.envelopeBytes = control.envelope.encode := by
          rw [BackbonePayload.envelopeBytes, hcontrol, Option.elim_some]
        by_cases hcanonical : envelope = control.envelope.encode
        · refine .inl (encode_eq_ok.mpr ?_)
          rw [hbytes, ← hcanonical]
          exact ⟨hframed.fits, rfl⟩
        · refine .inr ⟨control, rfl, hcanonical, ?_⟩
          by_cases hlength : 44 + control.envelope.encode.length ≤ MAX_BACKBONE_BODY
          · refine .inl (encode_eq_ok.mpr ?_)
            rw [hbytes]
            exact ⟨hframed.fits_within fun _ => hlength, rfl⟩
          · exact .inr (Nat.not_le.mp hlength)
  · intro b
    have heq := Checked.payloadAt_eq decode b
    refine ⟨heq, ?_⟩
    rw [heq]
    exact Bounded.checked_ne_outOfBounds _

/-! ## A routed session frame -/

namespace RoutedSession

def mesh : MeshId := ⟨0x00000000000040008000000000000001#128, Types.random_one⟩
def source : PeerId := ⟨0x00000000000040008000000000000002#128, Types.random_two⟩
def destination : PeerId := ⟨0x00000000000040008000000000000003#128, Types.random_three⟩
def origin : RelayId := ⟨0x00000000000040008000000000000004#128, Types.random_four⟩
def target : RelayId := ⟨0x00000000000040008000000000000005#128, Types.random_five⟩

def control : RoutedControl where
  source
  destination
  generation := 7
  envelope :=
    { message := some (.relayed
        { major := PROTOCOL_MAJOR
          meshId := mesh.asBytes
          destinationPeer := destination.asBytes
          sourcePeer := source.asBytes
          kind := SESSION
          frame := [4, 0, 0, 0] }) }

def route : BackboneRoute where
  origin
  destination := some target
  topologyRevision := 3
  hopLimit := 4
  visited := [origin, target]

/-- Prost, on the envelope of `control`. -/
def prost : EnvelopeDecoder := fun bytes =>
  if bytes = control.envelope.encode then some control.envelope else none

end RoutedSession

open RoutedSession in
/-- A session frame on its second hop is read as it was sent, and sent again as it was read. -/
theorem routed_session_exact :
    ∃ b, encodeBackbonePayload (.routedControl control route) = .ok b ∧
      decodeBackbonePayload prost b = .ok (.routedControl control route) ∧
      ∃ envelope, b = frame envelope (.routedControl control route) ∧
        prost envelope = some control.envelope := by
  have hok : (encodeBackbonePayload (.routedControl control route)).isOk = true := by decide +kernel
  cases hsent : encodeBackbonePayload (.routedControl control route) with
  | error error =>
      rw [hsent] at hok
      cases hok
  | ok b =>
      have hread := (backbone_payload_exact prost).1 _ b hsent
        (by rintro _ ⟨⟩; decide) (by rintro _ ⟨⟩; exact if_pos rfl)
      obtain ⟨envelope, hframe, hdecode, -⟩ := (backbone_payload_exact prost).2.1 b _ hread
      exact ⟨b, rfl, hread, envelope, hframe, hdecode control rfl⟩

end Peerward.Relay
