import Peerward.Lib.Fields
import Peerward.Lib.Grammar
import Peerward.PeerCore.Coordination

/-!
# The coordination codec

One header for seven kinds of messages, each with a body rule of its own. What is accepted is exactly
what is written, but for one thing: a candidate is written without its IPv6 flow label, so a message
whose candidates have one is not read back.
-/

namespace Peerward.PeerCore

open Peerward.Lib
open Peerward.Types (versionNum)

namespace Message

def kind : Message → UInt8
  | candidates _ => 1
  | candidatesAck => 2
  | probe => 3
  | probeAck => 4
  | mtuProbe _ => 5
  | gatewayProbe _ => 6
  | gatewayAck .. => 7

end Message

namespace Coordination

def HEADER : Nat := 28

/-! ## Writing -/

def encodeCandidate : SocketAddr → Bytes
  | .v4 ip port => 4 :: (toBE 4 ip.toNat ++ toBE 2 port.toNat)
  | .v6 ip port _ _ => 6 :: (toBE 16 ip.toNat ++ toBE 2 port.toNat)

/-- What follows the header. -/
def encodeBody (generation : Nat) : Message → Except PeerError Bytes
  | .gatewayProbe id => do
    rejectIf (versionNum id ≠ 4 || generation = 0) .invalidPacket
    return toBE 16 id.toNat
  | .gatewayAck id ready => do
    rejectIf (versionNum id ≠ 4 || generation = 0) .invalidPacket
    return toBE 16 id.toNat ++ [if ready then 1 else 0]
  | .candidates endpoints => do
    validateCandidates endpoints
    rejectIf (256 ≤ endpoints.length) .invalidPacket
    return UInt8.ofNat endpoints.length :: endpoints.flatMap encodeCandidate
  | .mtuProbe padding => do
    rejectIf (padding = 0 || padding > MAX_PROBE_PADDING) .invalidPacket
    return List.replicate padding 0
  | _ => return []

def encode (coordination : Coordination) : Except PeerError Bytes := do
  let body ← encodeBody coordination.generation coordination.message
  return [1, coordination.message.kind, 0, 0] ++ toBE 8 coordination.generation
    ++ toBE 16 coordination.transaction.toNat ++ body

/-! ## Reading -/

open Decoder (byte number boolean reject loop)

def decodeCandidate : Decoder PeerError SocketAddr := do
  let family ← byte .invalidPacket
  if family = 4 then
    let ip ← BitVec.ofNat 32 <$> number .invalidPacket 4
    let port ← BitVec.ofNat 16 <$> number .invalidPacket 2
    return .v4 ip port
  else if family = 6 then
    let ip ← BitVec.ofNat 128 <$> number .invalidPacket 16
    let port ← BitVec.ofNat 16 <$> number .invalidPacket 2
    return .v6 ip port 0 0
  else throw .invalidPacket

def decodeCandidates : Decoder PeerError Message := do
  let count ← byte .invalidPacket
  reject .invalidPacket (count.toNat > MAX_CANDIDATES)
  let candidates ← loop (fun acc => (fun candidate => acc ++ [candidate]) <$> decodeCandidate)
    count.toNat []
  StateT.lift (validateCandidates candidates)
  return .candidates candidates

def decodeGateway (kind : UInt8) (generation : Nat) : Decoder PeerError Message := do
  let id ← BitVec.ofNat 128 <$> number .invalidPacket 16
  reject .invalidPacket (versionNum id ≠ 4 || generation = 0)
  if kind = 6 then return .gatewayProbe id
  else
    let ready ← boolean .invalidPacket
    return .gatewayAck id ready

/-- The `match` on the kind, but for padded probes. -/
def decodeMessage (kind : UInt8) (generation : Nat) : Decoder PeerError Message :=
  if kind = 1 then decodeCandidates
  else if kind = 2 then return .candidatesAck
  else if kind = 3 then return .probe
  else if kind = 4 then return .probeAck
  else if kind = 6 ∨ kind = 7 then decodeGateway kind generation
  else throw .invalidPacket

/-- A padded probe is all of its body; every other message must leave none of it. -/
def decodeBody (kind : UInt8) (generation : Nat) (body : Bytes) : Except PeerError Message :=
  if kind = 5 then
    if !body.isEmpty && body.all (· = 0) then .ok (.mtuProbe body.length) else .error .invalidPacket
  else do
    let (message, rest) ← (decodeMessage kind generation).run body
    rejectIf (!rest.isEmpty) .invalidPacket
    return message

def decode (bytes : Bytes) : Except PeerError Coordination := do
  rejectIf (bytes.length < HEADER || bytes.length > HEADER + MAX_PROBE_PADDING
    || byteAt bytes 0 ≠ 1 || slice bytes 2 4 ≠ [0, 0]) .invalidPacket
  let generation := ofBE (slice bytes 4 12)
  let transaction := BitVec.ofNat 128 (ofBE (slice bytes 12 28))
  let message ← decodeBody (byteAt bytes 1) generation (bytes.drop HEADER)
  return { generation, transaction, message }

end Coordination

/-! ## The grammar of bodies

A body is accepted exactly when it is how some message is written. Padding is the exception in the source,
since its length is the message.
-/

/-- Nothing of the address is left out when it is written. -/
def SocketAddr.plain : SocketAddr → Bool
  | .v4 .. => true
  | .v6 _ _ flowinfo scopeId => flowinfo = 0 && scopeId = 0

/-- Every candidate is written in full. -/
def Message.plain : Message → Bool
  | .candidates endpoints => endpoints.all (·.plain)
  | _ => true

namespace Coordination

open Decoder (Parses Sequence sequence_encoded)

variable {generation : Nat} {kind : UInt8} {message : Message} {body bytes : Bytes}

theorem port_width : 2 ^ 16 = 256 ^ 2 := by decide
theorem v4_width : 2 ^ 32 = 256 ^ 4 := by decide
theorem v6_width : 2 ^ 128 = 256 ^ 16 := by decide

theorem decodeCandidate_parses : Parses decodeCandidate fun candidate front =>
    candidate.plain = true ∧ front = encodeCandidate candidate := by
  refine (Parses.byte.bind fun family _ _ => Parses.ite
    (fun _ => (Parses.bits v4_width).bind fun ip _ _ => (Parses.bits port_width).bind
      fun port _ _ => Parses.pure _)
    fun _ => Parses.ite (fun _ => (Parses.bits v6_width).bind fun ip _ _ =>
      (Parses.bits port_width).bind fun port _ _ => Parses.pure _) fun _ => Parses.throw _).congr
    fun candidate front => ?_
  constructor
  · rintro ⟨family, _, _, rfl, h, rfl⟩
    split at h
    · next hfamily =>
        obtain ⟨ip, _, _, rfl, ⟨port, _, _, rfl, ⟨rfl, rfl⟩, rfl⟩, rfl⟩ := h
        exact ⟨rfl, by simp [hfamily, encodeCandidate]⟩
    · split at h
      · next hfamily =>
          obtain ⟨ip, _, _, rfl, ⟨port, _, _, rfl, ⟨rfl, rfl⟩, rfl⟩, rfl⟩ := h
          exact ⟨rfl, by simp [hfamily, encodeCandidate]⟩
      · exact h.elim
  · rintro ⟨hplain, rfl⟩
    cases candidate with
    | v4 ip port =>
        refine ⟨4, [4], toBE 4 ip.toNat ++ (toBE 2 port.toNat ++ []), rfl, ?_, ?_⟩
        · rw [if_pos rfl]
          exact ⟨ip, _, _, rfl, ⟨port, _, _, rfl, ⟨rfl, rfl⟩, rfl⟩, rfl⟩
        · simp only [encodeCandidate, List.append_nil, List.singleton_append]
    | v6 ip port flowinfo scopeId =>
        simp only [SocketAddr.plain, Bool.and_eq_true, decide_eq_true_eq] at hplain
        obtain ⟨rfl, rfl⟩ := hplain
        refine ⟨6, [6], toBE 16 ip.toNat ++ (toBE 2 port.toNat ++ []), rfl, ?_, ?_⟩
        · rw [if_neg (by decide), if_pos rfl]
          exact ⟨ip, _, _, rfl, ⟨port, _, _, rfl, ⟨rfl, rfl⟩, rfl⟩, rfl⟩
        · simp only [encodeCandidate, List.append_nil, List.singleton_append]

theorem length_le_of_validateCandidates {endpoints : List SocketAddr}
    (h : validateCandidates endpoints = .ok ()) : endpoints.length ≤ MAX_CANDIDATES := by
  have h := rejectIf_eq_ok.mp h
  simp only [Bool.or_eq_false_iff, decide_eq_false_iff_not, not_lt] at h
  exact h.1.1

theorem encodeBody_candidates {endpoints : List SocketAddr} :
    encodeBody generation (.candidates endpoints) = .ok body ↔
      validateCandidates endpoints = .ok () ∧
        body = UInt8.ofNat endpoints.length :: endpoints.flatMap encodeCandidate := by
  simp only [encodeBody]
  constructor
  · intro h
    obtain ⟨_, hvalid, h⟩ := bind_eq_ok.mp h
    obtain ⟨_, -, h⟩ := bind_eq_ok.mp h
    exact ⟨hvalid, (Except.ok.inj h).symm⟩
  · rintro ⟨hvalid, rfl⟩
    have hlength : endpoints.length ≤ 32 := length_le_of_validateCandidates hvalid
    have hcount : rejectIf (decide (256 ≤ endpoints.length)) PeerError.invalidPacket = .ok () :=
      rejectIf_eq_ok.mpr (decide_eq_false (by omega))
    rw [hvalid, ok_bind, hcount, ok_bind]
    rfl

theorem decodeCandidates_parses : Parses decodeCandidates fun message front =>
    ∃ endpoints, message = .candidates endpoints ∧ endpoints.all (·.plain) = true ∧
      encodeBody generation (.candidates endpoints) = .ok front := by
  refine (Parses.byte.bind fun count _ _ => (Parses.reject _).bind fun _ _ _ =>
    (decodeCandidate_parses.loop_push count.toNat []).bind fun candidates _ _ =>
      (Parses.lift _).bind fun _ _ _ => Parses.pure _).congr fun message front => ?_
  constructor
  · rintro ⟨count, _, _, rfl, ⟨_, _, _, ⟨hcount, rfl⟩, ⟨candidates, _, _,
      ⟨items, hlength, rfl, hitems⟩, ⟨_, _, _, ⟨hvalid, rfl⟩, ⟨rfl, rfl⟩, rfl⟩, rfl⟩, rfl⟩, rfl⟩
    obtain ⟨hplain, rfl⟩ := sequence_encoded.mp hitems
    refine ⟨candidates, rfl, List.all_eq_true.mpr hplain, encodeBody_candidates.mpr ⟨hvalid, ?_⟩⟩
    rw [hlength, UInt8.ofNat_toNat]
    simp
  · rintro ⟨endpoints, rfl, hplain, hbody⟩
    obtain ⟨hvalid, rfl⟩ := encodeBody_candidates.mp hbody
    have hlength : endpoints.length ≤ 32 := length_le_of_validateCandidates hvalid
    have hcount : (UInt8.ofNat endpoints.length).toNat = endpoints.length := by
      rw [UInt8.toNat_ofNat']
      omega
    refine ⟨_, [_], _, rfl, ⟨(), [], _, ⟨?_, rfl⟩, ⟨endpoints, _, [],
      ⟨endpoints, hcount.symm, rfl, sequence_encoded.mpr ⟨List.all_eq_true.mp hplain, rfl⟩⟩,
      ⟨(), [], [], ⟨hvalid, rfl⟩, ⟨rfl, rfl⟩, rfl⟩, (List.append_nil _).symm⟩, rfl⟩, rfl⟩
    rw [hcount]
    exact decide_eq_false (Nat.not_lt.mpr hlength)

theorem encodeBody_gatewayProbe {id : BitVec 128} :
    encodeBody generation (.gatewayProbe id) = .ok body ↔
      (versionNum id ≠ 4 || generation = 0) = false ∧ body = toBE 16 id.toNat := by
  simp only [encodeBody, bind_eq_ok]
  constructor
  · rintro ⟨_, hvalid, h⟩
    exact ⟨rejectIf_eq_ok.mp hvalid, (Except.ok.inj h).symm⟩
  · rintro ⟨hvalid, rfl⟩
    exact ⟨(), rejectIf_eq_ok.mpr hvalid, rfl⟩

theorem encodeBody_gatewayAck {id : BitVec 128} {ready : Bool} :
    encodeBody generation (.gatewayAck id ready) = .ok body ↔
      (versionNum id ≠ 4 || generation = 0) = false ∧
        body = toBE 16 id.toNat ++ [if ready then 1 else 0] := by
  simp only [encodeBody, bind_eq_ok]
  constructor
  · rintro ⟨_, hvalid, h⟩
    exact ⟨rejectIf_eq_ok.mp hvalid, (Except.ok.inj h).symm⟩
  · rintro ⟨hvalid, rfl⟩
    exact ⟨(), rejectIf_eq_ok.mpr hvalid, rfl⟩

theorem encodeBody_mtuProbe {padding : Nat} :
    encodeBody generation (.mtuProbe padding) = .ok body ↔
      (0 < padding ∧ padding ≤ MAX_PROBE_PADDING) ∧ body = List.replicate padding 0 := by
  simp only [encodeBody, bind_eq_ok]
  constructor
  · rintro ⟨_, hvalid, h⟩
    have hvalid := rejectIf_eq_ok.mp hvalid
    simp only [Bool.or_eq_false_iff, decide_eq_false_iff_not, not_lt] at hvalid
    exact ⟨⟨Nat.pos_of_ne_zero hvalid.1, hvalid.2⟩, (Except.ok.inj h).symm⟩
  · rintro ⟨hvalid, rfl⟩
    refine ⟨(), rejectIf_eq_ok.mpr ?_, rfl⟩
    simp only [Bool.or_eq_false_iff, decide_eq_false_iff_not, not_lt]
    exact ⟨hvalid.1.ne', hvalid.2⟩

theorem decodeGateway_parses (hkind : kind = 6 ∨ kind = 7) :
    Parses (decodeGateway kind generation) fun message front =>
      message.kind = kind ∧ message.plain = true ∧ encodeBody generation message = .ok front := by
  refine ((Parses.bits v6_width).bind fun id _ _ => (Parses.reject _).bind fun _ _ _ =>
    Parses.ite (fun _ => Parses.pure _) fun _ => Parses.boolean.bind fun ready _ _ =>
      Parses.pure _).congr fun message front => ?_
  constructor
  · rintro ⟨id, _, _, rfl, ⟨_, _, _, ⟨hvalid, rfl⟩, h, rfl⟩, rfl⟩
    split at h
    · next hprobe =>
        obtain ⟨rfl, rfl⟩ := h
        exact ⟨hprobe.symm, rfl, encodeBody_gatewayProbe.mpr ⟨hvalid, List.append_nil _⟩⟩
    · next hprobe =>
        obtain ⟨ready, _, _, rfl, ⟨rfl, rfl⟩, rfl⟩ := h
        refine ⟨(hkind.resolve_left hprobe).symm, rfl, encodeBody_gatewayAck.mpr ⟨hvalid, ?_⟩⟩
        rw [List.append_nil]
  · rintro ⟨rfl, -, hbody⟩
    cases message with
    | gatewayProbe id =>
        obtain ⟨hvalid, hfront⟩ := encodeBody_gatewayProbe.mp hbody
        refine ⟨id, front, [], hfront, ⟨(), [], [], ⟨hvalid, rfl⟩, ?_, rfl⟩,
          (List.append_nil _).symm⟩
        rw [Message.kind, if_pos rfl]
        exact ⟨rfl, rfl⟩
    | gatewayAck id ready =>
        obtain ⟨hvalid, hfront⟩ := encodeBody_gatewayAck.mp hbody
        refine ⟨id, _, _, rfl, ⟨(), [], _, ⟨hvalid, rfl⟩, ?_, (List.nil_append _).symm⟩, hfront⟩
        rw [Message.kind, if_neg (by decide)]
        exact ⟨ready, _, [], rfl, ⟨rfl, rfl⟩, (List.append_nil _).symm⟩
    | _ => simp [Message.kind] at hkind

theorem decodeMessage_parses (hkind : kind ≠ 5) :
    Parses (decodeMessage kind generation) fun message front =>
      message.kind = kind ∧ message.plain = true ∧ encodeBody generation message = .ok front := by
  refine (Parses.ite (fun _ => @decodeCandidates_parses generation) fun _ =>
    Parses.ite (fun _ => Parses.pure _) fun _ => Parses.ite (fun _ => Parses.pure _) fun _ =>
      Parses.ite (fun _ => Parses.pure _) fun _ => Parses.ite (fun h => decodeGateway_parses h)
        fun _ => Parses.throw _).congr fun message front => ?_
  constructor
  · intro h
    split at h
    · next hone =>
        obtain ⟨endpoints, rfl, hplain, hbody⟩ := h
        exact ⟨hone.symm, hplain, hbody⟩
    split at h
    · next htwo =>
        obtain ⟨rfl, rfl⟩ := h
        exact ⟨htwo.symm, rfl, rfl⟩
    split at h
    · next hthree =>
        obtain ⟨rfl, rfl⟩ := h
        exact ⟨hthree.symm, rfl, rfl⟩
    split at h
    · next hfour =>
        obtain ⟨rfl, rfl⟩ := h
        exact ⟨hfour.symm, rfl, rfl⟩
    split at h
    · exact h
    · exact h.elim
  · rintro ⟨rfl, hplain, hbody⟩
    cases message with
    | candidates endpoints => exact ⟨endpoints, rfl, hplain, hbody⟩
    | candidatesAck => exact ⟨rfl, (Except.ok.inj hbody).symm⟩
    | probe => exact ⟨rfl, (Except.ok.inj hbody).symm⟩
    | probeAck => exact ⟨rfl, (Except.ok.inj hbody).symm⟩
    | mtuProbe padding => exact absurd rfl hkind
    | gatewayProbe id => exact ⟨rfl, rfl, hbody⟩
    | gatewayAck id ready => exact ⟨rfl, rfl, hbody⟩

/-- Sizes that the datagram can have. -/
theorem decodeBody_eq_ok (hroom : body.length ≤ MAX_PROBE_PADDING) :
    decodeBody kind generation body = .ok message ↔
      message.kind = kind ∧ message.plain = true ∧ encodeBody generation message = .ok body := by
  unfold decodeBody
  by_cases hkind : kind = 5
  · rw [if_pos hkind]
    constructor
    · intro h
      split at h
      · next hzeros =>
          cases h
          simp only [Bool.and_eq_true, Bool.not_eq_true', List.isEmpty_eq_false_iff,
            List.all_eq_true, decide_eq_true_eq] at hzeros
          exact ⟨hkind.symm, rfl, encodeBody_mtuProbe.mpr
            ⟨⟨List.length_pos_of_ne_nil hzeros.1, hroom⟩, List.eq_replicate_of_mem hzeros.2⟩⟩
      · cases h
    · rintro ⟨rfl, -, hbody⟩
      cases message with
      | mtuProbe padding =>
          obtain ⟨hpadding, rfl⟩ := encodeBody_mtuProbe.mp hbody
          rw [if_pos, List.length_replicate]
          simp [hpadding.1.ne']
      | _ => simp [Message.kind] at hkind
  · rw [if_neg hkind, ← (decodeMessage_parses hkind).all]
    simp only [bind_eq_ok, Prod.exists]
    constructor
    · rintro ⟨m, rest, hread, _, hempty, h⟩
      cases h
      have hempty := rejectIf_eq_ok.mp hempty
      rw [Bool.not_eq_false', List.isEmpty_iff] at hempty
      rwa [hempty] at hread
    · intro h
      exact ⟨message, [], h, (), rfl, rfl⟩

/-! ## The header -/

theorem length_encodeCandidate_le (candidate : SocketAddr) : (encodeCandidate candidate).length ≤ 19 := by
  cases candidate <;> simp [encodeCandidate]

theorem length_encodeBody_le (h : encodeBody generation message = .ok body) :
    body.length ≤ MAX_PROBE_PADDING := by
  cases message with
  | candidates endpoints =>
      obtain ⟨hvalid, rfl⟩ := encodeBody_candidates.mp h
      have hlength : endpoints.length ≤ 32 := length_le_of_validateCandidates hvalid
      have hsum := List.sum_le_card_nsmul (endpoints.map fun e => (encodeCandidate e).length) 19
        fun n hn => by
          obtain ⟨e, -, rfl⟩ := List.mem_map.mp hn
          exact length_encodeCandidate_le e
      rw [List.length_map, smul_eq_mul] at hsum
      show (endpoints.flatMap encodeCandidate).length + 1 ≤ 9000
      rw [List.length_flatMap]
      omega
  | candidatesAck => cases h; decide
  | probe => cases h; decide
  | probeAck => cases h; decide
  | mtuProbe padding =>
      obtain ⟨hpadding, rfl⟩ := encodeBody_mtuProbe.mp h
      rw [List.length_replicate]
      exact hpadding.2
  | gatewayProbe id =>
      rw [(encodeBody_gatewayProbe.mp h).2, length_toBE]
      decide
  | gatewayAck id ready =>
      rw [(encodeBody_gatewayAck.mp h).2, List.length_append, length_toBE, List.length_singleton]
      decide

theorem encode_eq_ok {coordination : Coordination} : encode coordination = .ok bytes ↔
    ∃ body, encodeBody coordination.generation coordination.message = .ok body ∧
      bytes = [1, coordination.message.kind, 0, 0] ++ toBE 8 coordination.generation
        ++ toBE 16 coordination.transaction.toNat ++ body := by
  simp only [encode, bind_eq_ok]
  exact exists_congr fun body => and_congr_right fun _ => ⟨fun h => (Except.ok.inj h).symm, fun h => h ▸ rfl⟩

/-- A datagram with the right version and reserved bytes is its fields. -/
theorem header_fields (hlength : HEADER ≤ bytes.length) (hversion : byteAt bytes 0 = 1)
    (hreserved : slice bytes 2 4 = [0, 0]) :
    bytes = [1, byteAt bytes 1, 0, 0] ++ toBE 8 (ofBE (slice bytes 4 12))
      ++ toBE 16 (ofBE (slice bytes 12 28)) ++ bytes.drop HEADER := by
  have hlength : 28 ≤ bytes.length := hlength
  have hgeneration : toBE 8 (ofBE (slice bytes 4 12)) = slice bytes 4 12 :=
    toBE_ofBE_of_length (by rw [length_slice]; omega)
  have htransaction : toBE 16 (ofBE (slice bytes 12 28)) = slice bytes 12 28 :=
    toBE_ofBE_of_length (by rw [length_slice]; omega)
  calc bytes
      = byteAt bytes 0 :: byteAt bytes 1 :: bytes.drop 2 := by
        rw [byteAt, byteAt, ← drop_eq_getD_cons bytes (by omega), ← drop_eq_getD_cons bytes (by omega),
          List.drop_zero]
    _ = 1 :: byteAt bytes 1 :: ([0, 0] ++ (slice bytes 4 12 ++ (slice bytes 12 28 ++ bytes.drop 28))) := by
        rw [hversion, drop_eq_slice_append bytes (show 2 ≤ 4 by decide), hreserved,
          drop_eq_slice_append bytes (show 4 ≤ 12 by decide),
          drop_eq_slice_append bytes (show 12 ≤ 28 by decide)]
    _ = _ := by simp [hgeneration, htransaction, HEADER]

theorem frame_fields {generation : Nat} {transaction : BitVec 128} (hgeneration : generation < 2 ^ 64)
    (h : bytes = [1, kind, 0, 0] ++ toBE 8 generation ++ toBE 16 transaction.toNat ++ body) :
    byteAt bytes 0 = 1 ∧ byteAt bytes 1 = kind ∧ slice bytes 2 4 = [0, 0] ∧
      ofBE (slice bytes 4 12) = generation ∧
      BitVec.ofNat 128 (ofBE (slice bytes 12 28)) = transaction ∧ bytes.drop HEADER = body := by
  have htail : bytes = [1, kind, 0, 0] ++ (toBE 8 generation ++ (toBE 16 transaction.toNat ++ body)) := by
    rw [h, List.append_assoc, List.append_assoc]
  have hhead : bytes = [1, kind] ++ ([0, 0] ++ (toBE 8 generation ++ (toBE 16 transaction.toNat ++ body))) := htail
  have hdrop : bytes.drop 4 = toBE 8 generation ++ (toBE 16 transaction.toNat ++ body) := by
    rw [htail]
    rfl
  have hrest : bytes.drop 12 = toBE 16 transaction.toNat ++ body :=
    drop_of_drop hdrop (by rw [length_toBE])
  refine ⟨by rw [htail]; rfl, by rw [htail]; rfl, slice_middle hhead rfl rfl, ?_, ?_,
    drop_of_drop hrest (by rw [length_toBE]; rfl)⟩
  · rw [slice_of_drop hdrop (by rw [length_toBE])]
    exact ofBE_toBE_of_lt hgeneration
  · rw [slice_of_drop hrest (by rw [length_toBE]), ofBE_toBE_of_lt (v6_width ▸ transaction.isLt),
      BitVec.ofNat_toNat, BitVec.setWidth_eq]

/-- A datagram is accepted as a message exactly when it is how the message is written, nothing of the
message left out. -/
theorem decode_eq_ok {coordination : Coordination} : decode bytes = .ok coordination ↔
    encode coordination = .ok bytes ∧ coordination.generation < 2 ^ 64 ∧
      coordination.message.plain = true := by
  have hwidth : 2 ^ 64 = 256 ^ 8 := by decide
  constructor
  · intro h
    obtain ⟨_, hheader, h⟩ := bind_eq_ok.mp h
    obtain ⟨message, hbody, h⟩ := bind_eq_ok.mp h
    cases h
    have hheader := rejectIf_eq_ok.mp hheader
    simp only [Bool.or_eq_false_iff, decide_eq_false_iff_not, not_lt, not_not] at hheader
    obtain ⟨⟨⟨hshort, hlong⟩, hversion⟩, hreserved⟩ := hheader
    have hroom : (bytes.drop HEADER).length ≤ MAX_PROBE_PADDING := by
      rw [List.length_drop]
      omega
    obtain ⟨hkind, hplain, hbody⟩ := (decodeBody_eq_ok hroom).mp hbody
    have hslice := ofBE_lt (slice bytes 4 12)
    have htransaction := ofBE_lt (slice bytes 12 28)
    have hshort : 28 ≤ bytes.length := hshort
    rw [length_slice, Nat.min_eq_left (by omega)] at hslice htransaction
    refine ⟨encode_eq_ok.mpr ⟨_, hbody, ?_⟩, hwidth ▸ hslice, hplain⟩
    simp only [hkind, BitVec.toNat_ofNat, v6_width, Nat.mod_eq_of_lt htransaction]
    exact header_fields hshort hversion hreserved
  · rintro ⟨hencode, hgeneration, hplain⟩
    obtain ⟨body, hbody, hbytes⟩ := encode_eq_ok.mp hencode
    have hroom := length_encodeBody_le hbody
    obtain ⟨hversion, hkind, hreserved, hgen, htransaction, hdrop⟩ := frame_fields hgeneration hbytes
    have hlength : bytes.length = HEADER + body.length := by
      rw [hbytes]
      simp only [List.length_append, length_toBE, List.length_cons, List.length_nil]
      rfl
    have hok : rejectIf (bytes.length < HEADER || bytes.length > HEADER + MAX_PROBE_PADDING
        || byteAt bytes 0 ≠ 1 || slice bytes 2 4 ≠ [0, 0]) PeerError.invalidPacket = .ok () := by
      rw [rejectIf_eq_ok]
      simp only [Bool.or_eq_false_iff, decide_eq_false_iff_not, not_lt, not_not]
      exact ⟨⟨⟨by omega, by omega⟩, hversion⟩, hreserved⟩
    have hmessage := (decodeBody_eq_ok hroom).mpr ⟨rfl, hplain, hbody⟩
    rw [decode, hok, ok_bind, hgen, htransaction, hdrop, hkind]
    show (decodeBody _ _ _ >>= fun message => _) = _
    rw [hmessage]
    rfl

end Coordination

end Peerward.PeerCore
