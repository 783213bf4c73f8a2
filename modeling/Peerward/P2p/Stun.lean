import Peerward.Lib.Bounded
import Peerward.PeerCore.Coordination

/-!
# STUN

The binding client and the binding server. The client walks over a response of somebody it does not
trust, so its reads are the bounded ones; what it accepts is stated apart, as a sequence of padded
attributes (`Response`).
-/

namespace Peerward.P2p

open Peerward.Lib Peerward.Lib.Bounded Peerward.Net
open Peerward.PeerCore (SocketAddr)

inductive P2pError where
  | stun
  deriving DecidableEq

abbrev Stop : Type := Bounded.Stop P2pError

def STUN_MAGIC : Nat := 0x2112a442
def STUN_BINDING_REQUEST : Nat := 0x0001
def STUN_BINDING_SUCCESS : Nat := 0x0101
def XOR_MAPPED_ADDRESS : Nat := 0x0020

/-- An address and a port, as `SocketAddr::new` takes them. -/
abbrev Mapped : Type := IpAddr × BitVec 16

/-! ## The client -/

/-- One transaction; its bytes are those of the request. -/
structure StunRequest where
  transaction : Bytes
  length_transaction : transaction.length = 12

def StunRequest.bytes (request : StunRequest) : Bytes :=
  toBE 2 STUN_BINDING_REQUEST ++ (toBE 2 0 ++ (toBE 4 STUN_MAGIC ++ request.transaction))

/-- `u16::from_be_bytes` of two bytes in a row. -/
def u16At (bytes : Bytes) (index : Nat) : Except Stop Nat := do
  return ofBE [← byteAt bytes index, ← byteAt bytes (index + 1)]

def xorBytes (bytes mask : Bytes) : Bytes := List.zipWith (· ^^^ ·) bytes mask

def decodeXorAddress (value transaction : Bytes) : Except Stop Mapped := do
  checked (rejectIf (value.length < 4) .stun)
  checked (rejectIf ((← byteAt value 0) ≠ 0) .stun)
  let port := BitVec.ofNat 16 (← u16At value 2) ^^^ BitVec.ofNat 16 (STUN_MAGIC >>> 16)
  let family ← byteAt value 1
  if family = 1 ∧ value.length = 8 then
    return (.ofV4Octets (xorBytes (← sliceAt value 4 8) (toBE 4 STUN_MAGIC)), port)
  else if family = 2 ∧ value.length = 20 then
    return (.ofV6Octets (xorBytes (← sliceAt value 4 20) (toBE 4 STUN_MAGIC ++ transaction)), port)
  else .error (.refused .stun)

/-- What a response may not name. -/
def unusable (address : Mapped) : Bool :=
  address.2 = 0 || address.1.isUnspecified || address.1.isMulticast

/-- One attribute of a response. -/
def readAttribute (transaction bytes : Bytes) (kind start stop : Nat) (mapped : Option Mapped) :
    Except Stop (Option Mapped) :=
  if kind = XOR_MAPPED_ADDRESS then do
    checked (rejectIf mapped.isSome .stun)
    let address ← decodeXorAddress (← sliceAt bytes start stop) transaction
    checked (rejectIf (unusable address) .stun)
    return some address
  else return mapped

/-- The loop over the attributes. -/
def walk (transaction bytes : Bytes) (cursor : Nat) (mapped : Option Mapped) :
    Except Stop (Option Mapped) :=
  if _h : cursor < bytes.length then do
    checked (rejectIf (bytes.length < cursor + 4) .stun)
    let kind ← u16At bytes cursor
    let length ← u16At bytes (cursor + 2)
    let start := cursor + 4
    let stop := start + length
    checked (rejectIf (bytes.length < stop) .stun)
    let mapped ← readAttribute transaction bytes kind start stop mapped
    let cursor' := stop + (4 - length % 4) % 4
    checked (rejectIf (bytes.length < cursor') .stun)
    walk transaction bytes cursor' mapped
  else .ok mapped
termination_by bytes.length - cursor
decreasing_by omega

def parseResponse (request : StunRequest) (bytes : Bytes) : Except Stop Mapped := do
  checked (rejectIf (!(20 ≤ bytes.length && bytes.length ≤ 1024)) .stun)
  checked (rejectIf ((← u16At bytes 0) ≠ STUN_BINDING_SUCCESS) .stun)
  checked (rejectIf (ofBE (← sliceAt bytes 4 8) ≠ STUN_MAGIC) .stun)
  checked (rejectIf ((← sliceAt bytes 8 20) ≠ request.transaction) .stun)
  let declared ← u16At bytes 2
  checked (rejectIf (declared + 20 ≠ bytes.length || declared % 4 ≠ 0) .stun)
  match ← walk request.transaction bytes 20 none with
  | some address => return address
  | none => .error (.refused .stun)

/-! ## The server -/

def ipOf : SocketAddr → IpAddr
  | .v4 ip _ => .v4 ip
  | .v6 ip _ _ _ => .v6 ip

def portOf : SocketAddr → BitVec 16
  | .v4 _ port => port
  | .v6 _ port _ _ => port

/-- `IpAddr::to_canonical`: an IPv4-mapped address is the IPv4 address. -/
def toCanonical : IpAddr → IpAddr
  | .v4 bits => .v4 bits
  | .v6 bits => if bits >>> 32 = 0xffff#128 then .v4 (bits.setWidth 32) else .v6 bits

def stunBindingResponse (request : Bytes) (observed : SocketAddr) : Option Bytes :=
  if request.length ≠ 20 ∨ slice request 0 4 ≠ [0, 1, 0, 0] ∨ slice request 4 8 ≠ toBE 4 STUN_MAGIC
      ∨ portOf observed = 0 ∨ (ipOf observed).isUnspecified ∨ (ipOf observed).isMulticast then none
  else
    let address := toCanonical (ipOf observed)
    let size := if address.isIpv4 then 8 else 20
    some ([1, 1] ++ (toBE 2 (size + 4) ++ (slice request 4 20 ++ (toBE 2 XOR_MAPPED_ADDRESS
      ++ (toBE 2 size ++ ([0, if address.isIpv4 then 1 else 2]
      ++ (toBE 2 (portOf observed ^^^ 0x2112#16).toNat
      ++ xorBytes address.octets (slice request 4 (if address.isIpv4 then 8 else 20)))))))))

/-! ## Attributes

A response is its header and a sequence of padded attributes, one of which holds the address, masked with
the transaction. Written as a grammar, without a parser.
-/

/-- An attribute with the bytes that pad it to a multiple of four. -/
structure Tlv where
  kind : Nat
  value : Bytes
  padding : Bytes
  kind_lt : kind < 2 ^ 16
  length_lt : value.length < 2 ^ 16
  length_padding : padding.length = (4 - value.length % 4) % 4

def Tlv.bytes (t : Tlv) : Bytes :=
  toBE 2 t.kind ++ (toBE 2 t.value.length ++ (t.value ++ t.padding))

/-- The value of an address attribute. -/
def xorAddress (transaction : Bytes) (address : Mapped) : Bytes :=
  [0, if address.1.isIpv4 then 1 else 2] ++ (toBE 2 (address.2 ^^^ 0x2112#16).toNat
    ++ xorBytes address.1.octets (toBE 4 STUN_MAGIC ++ transaction))

/-- A success response to `request` that names `address`. -/
structure Response (request : StunRequest) (bytes : Bytes) (address : Mapped) : Prop where
  length_ge : 20 ≤ bytes.length
  length_le : bytes.length ≤ 1024
  usable : unusable address = false
  body : ∃ attributes : List Tlv,
    bytes = toBE 2 STUN_BINDING_SUCCESS ++ (toBE 2 (attributes.flatMap Tlv.bytes).length
      ++ (toBE 4 STUN_MAGIC ++ (request.transaction ++ attributes.flatMap Tlv.bytes))) ∧
    (attributes.flatMap Tlv.bytes).length % 4 = 0 ∧
    ∃ t : Tlv, attributes.filter (·.kind = XOR_MAPPED_ADDRESS) = [t] ∧
      t.value = xorAddress request.transaction address

/-! ## One address -/

variable {transaction bytes value : Bytes}

theorem u16At_of_le {index : Nat} (h : index + 2 ≤ bytes.length) :
    u16At bytes index = .ok (ofBE (slice bytes index (index + 2))) := by
  have hslice : slice bytes index (index + 2) = [bytes.getD index 0, bytes.getD (index + 1) 0] := by
    unfold slice
    rw [drop_eq_getD_cons bytes (by omega), drop_eq_getD_cons bytes (by omega)]
    have htwo : index + 2 - index = 2 := by omega
    rw [htwo]
    rfl
  unfold u16At
  rw [byteAt_of_lt (by omega), byteAt_of_lt (by omega), hslice]
  rfl

theorem xorBytes_xorBytes {bytes mask : Bytes} (h : bytes.length ≤ mask.length) :
    xorBytes (xorBytes bytes mask) mask = bytes := by
  induction bytes generalizing mask with
  | nil => rfl
  | cons b bytes ih =>
      cases mask with
      | nil => simp at h
      | cons m mask =>
          have hxor : b ^^^ m ^^^ m = b := by rw [UInt8.xor_assoc, UInt8.xor_self, UInt8.xor_zero]
          have hrest := ih (Nat.le_of_succ_le_succ h)
          simp only [xorBytes, List.zipWith_cons_cons, hxor] at hrest ⊢
          rw [hrest]

theorem xorBytes_append {bytes mask : Bytes} (h : bytes.length ≤ mask.length) (rest : Bytes) :
    xorBytes bytes (mask ++ rest) = xorBytes bytes mask := by
  induction bytes generalizing mask with
  | nil => rfl
  | cons b bytes ih =>
      cases mask with
      | nil => simp at h
      | cons m mask =>
          have hrest := ih (Nat.le_of_succ_le_succ h)
          simp only [xorBytes, List.cons_append, List.zipWith_cons_cons] at hrest ⊢
          rw [hrest]

@[simp] theorem length_xorBytes (bytes mask : Bytes) :
    (xorBytes bytes mask).length = min bytes.length mask.length := List.length_zipWith

/-- What the decoder makes of a value with a header. -/
theorem decodeXorAddress_cons (b₀ b₁ b₂ b₃ : UInt8) (rest transaction : Bytes) :
    decodeXorAddress (b₀ :: b₁ :: b₂ :: b₃ :: rest) transaction =
      if b₀ ≠ 0 then .error (.refused .stun)
      else if b₁ = 1 ∧ rest.length = 4 then
        .ok (.ofV4Octets (xorBytes rest (toBE 4 STUN_MAGIC)), BitVec.ofNat 16 (ofBE [b₂, b₃]) ^^^ 0x2112#16)
      else if b₁ = 2 ∧ rest.length = 16 then
        .ok (.ofV6Octets (xorBytes rest (toBE 4 STUN_MAGIC ++ transaction)),
          BitVec.ofNat 16 (ofBE [b₂, b₃]) ^^^ 0x2112#16)
      else .error (.refused .stun) := by
  have hrest : slice (b₀ :: b₁ :: b₂ :: b₃ :: rest) 4 (rest.length + 4) = rest := by
    have hdrop : (b₀ :: b₁ :: b₂ :: b₃ :: rest).drop 4 = rest := rfl
    rw [slice, hdrop, Nat.add_sub_cancel, List.take_length]
  have hlength : (b₀ :: b₁ :: b₂ :: b₃ :: rest).length = rest.length + 4 := rfl
  have hmagic : BitVec.ofNat 16 (STUN_MAGIC >>> 16) = 0x2112#16 := by decide
  unfold decodeXorAddress
  rw [hmagic, hlength]
  by_cases hzero : b₀ = 0
  · rw [if_neg (not_not.mpr hzero)]
    subst hzero
    by_cases hv4 : b₁ = 1 ∧ rest.length = 4
    · obtain ⟨rfl, hfour⟩ := hv4
      rw [hfour] at hrest
      rw [if_pos ⟨rfl, hfour⟩, u16At_of_le (by omega), sliceAt_of_le (by omega) (by omega), hfour, hrest]
      rfl
    · rw [if_neg hv4]
      by_cases hv6 : b₁ = 2 ∧ rest.length = 16
      · obtain ⟨rfl, hsixteen⟩ := hv6
        rw [hsixteen] at hrest
        rw [if_pos ⟨rfl, hsixteen⟩, u16At_of_le (by omega), sliceAt_of_le (by omega) (by omega),
          sliceAt_of_le (by omega) (by omega), hsixteen, hrest]
        rfl
      · have hnot4 : ¬ (b₁ = 1 ∧ rest.length + 4 = 8) := fun h => hv4 ⟨h.1, by omega⟩
        have hnot6 : ¬ (b₁ = 2 ∧ rest.length + 4 = 20) := fun h => hv6 ⟨h.1, by omega⟩
        have hfamily : Bounded.byteAt (0 :: b₁ :: b₂ :: b₃ :: rest) 1 =
            (.ok b₁ : Except Stop UInt8) := rfl
        rw [if_neg hv6, u16At_of_le (by omega), hfamily]
        simp only [ok_bind, hnot4, hnot6, if_false]
        rfl
  · rw [if_pos hzero]
    have hbad : decide (b₀ ≠ 0) = true := decide_eq_true hzero
    have hread : Bounded.byteAt (b₀ :: b₁ :: b₂ :: b₃ :: rest) 0 = (.ok b₀ : Except Stop UInt8) := rfl
    rw [hread]
    simp only [ok_bind, hbad]
    rfl

theorem port_roundtrip {b c : UInt8} : toBE 2 (BitVec.ofNat 16 (ofBE [b, c]) ^^^ 0x2112#16 ^^^ 0x2112#16).toNat
    = [b, c] := by
  have hlt : ofBE [b, c] < 2 ^ 16 := (ofBE_lt [b, c]).trans_eq (by norm_num)
  rw [BitVec.xor_assoc, BitVec.xor_self, BitVec.xor_zero, BitVec.toNat_ofNat, Nat.mod_eq_of_lt hlt]
  exact toBE_ofBE_of_length rfl

theorem ofBE_port (port : BitVec 16) : BitVec.ofNat 16 (ofBE (toBE 2 port.toNat)) = port := by
  rw [ofBE_toBE_of_lt port.isLt, BitVec.ofNat_toNat, BitVec.setWidth_eq]

theorem length_octets (ip : IpAddr) : ip.octets.length = if ip.isIpv4 then 4 else 16 := by
  cases ip <;> simp [IpAddr.octets, IpAddr.isIpv4]

theorem ofV4Octets_octets (bits : BitVec 32) : IpAddr.ofV4Octets (IpAddr.v4 bits).octets = .v4 bits := by
  rw [IpAddr.ofV4Octets, IpAddr.octets, ofBE_toBE_of_lt bits.isLt, BitVec.ofNat_toNat, BitVec.setWidth_eq]

theorem ofV6Octets_octets (bits : BitVec 128) : IpAddr.ofV6Octets (IpAddr.v6 bits).octets = .v6 bits := by
  rw [IpAddr.ofV6Octets, IpAddr.octets, ofBE_toBE_of_lt bits.isLt, BitVec.ofNat_toNat, BitVec.setWidth_eq]

/-- Reading back the value of an address. -/
theorem decode_xorAddress (htransaction : transaction.length = 12) (address : Mapped) :
    decodeXorAddress (xorAddress transaction address) transaction = .ok address := by
  obtain ⟨ip, port⟩ := address
  obtain ⟨b₂, b₃, hport⟩ : ∃ b₂ b₃, toBE 2 (port ^^^ 0x2112#16).toNat = [b₂, b₃] :=
    List.length_eq_two.mp (length_toBE _ _)
  have hback : BitVec.ofNat 16 (ofBE [b₂, b₃]) ^^^ 0x2112#16 = port := by
    rw [← hport, ofBE_port, BitVec.xor_assoc, BitVec.xor_self, BitVec.xor_zero]
  unfold xorAddress
  rw [hport]
  cases ip with
  | v4 bits =>
      have hlong : (IpAddr.v4 bits).octets.length ≤ (toBE 4 STUN_MAGIC).length := by
        simp [length_octets, IpAddr.isIpv4]
      simp only [xorBytes_append hlong, List.cons_append, List.nil_append]
      refine (decodeXorAddress_cons ..).trans ?_
      rw [if_neg (by decide), if_pos ⟨rfl, by simp [length_octets, IpAddr.isIpv4]⟩,
        xorBytes_xorBytes hlong, ofV4Octets_octets, hback]
  | v6 bits =>
      have hlong : (IpAddr.v6 bits).octets.length ≤ (toBE 4 STUN_MAGIC ++ transaction).length := by
        simp [length_octets, IpAddr.isIpv4, htransaction]
      simp only [List.cons_append, List.nil_append]
      refine (decodeXorAddress_cons ..).trans ?_
      rw [if_neg (by decide), if_neg (by simp [IpAddr.isIpv4]),
        if_pos ⟨rfl, by simp [length_octets, IpAddr.isIpv4, htransaction]⟩,
        xorBytes_xorBytes hlong, ofV6Octets_octets, hback]

/-- The decoder reads inside the value, and accepts the values of addresses only. -/
theorem decodeXorAddress_spec (htransaction : transaction.length = 12) (value : Bytes) :
    (∃ address, value = xorAddress transaction address ∧
      decodeXorAddress value transaction = .ok address) ∨
    (decodeXorAddress value transaction = .error (.refused .stun) ∧
      ∀ address, value ≠ xorAddress transaction address) := by
  have hrefused : decodeXorAddress value transaction = .error (.refused .stun) →
      ∀ address, value ≠ xorAddress transaction address := by
    intro hrefused address heq
    rw [heq, decode_xorAddress htransaction] at hrefused
    cases hrefused
  suffices h : decodeXorAddress value transaction = .error (.refused .stun) ∨
      ∃ address, value = xorAddress transaction address from
    h.elim (fun h => .inr ⟨h, hrefused h⟩) fun ⟨address, h⟩ =>
      .inl ⟨address, h, h ▸ decode_xorAddress htransaction address⟩
  match value with
  | [] | [_] | [_, _] | [_, _, _] => exact .inl rfl
  | b₀ :: b₁ :: b₂ :: b₃ :: rest =>
    rw [decodeXorAddress_cons]
    split
    · exact .inl rfl
    · next hzero =>
      rw [not_not] at hzero
      subst hzero
      split
      · next hv4 =>
        obtain ⟨rfl, hlength⟩ := hv4
        refine .inr ⟨(.ofV4Octets (xorBytes rest (toBE 4 STUN_MAGIC)),
          BitVec.ofNat 16 (ofBE [b₂, b₃]) ^^^ 0x2112#16), ?_⟩
        have hoctets : (IpAddr.ofV4Octets (xorBytes rest (toBE 4 STUN_MAGIC))).octets =
            xorBytes rest (toBE 4 STUN_MAGIC) := IpAddr.octets_ofV4Octets (by simp [hlength])
        unfold xorAddress
        rw [port_roundtrip, hoctets, xorBytes_append (by simp [hlength]), xorBytes_xorBytes (by simp [hlength])]
        rfl
      · split
        · next hv6 =>
          obtain ⟨rfl, hlength⟩ := hv6
          refine .inr ⟨(.ofV6Octets (xorBytes rest (toBE 4 STUN_MAGIC ++ transaction)),
            BitVec.ofNat 16 (ofBE [b₂, b₃]) ^^^ 0x2112#16), ?_⟩
          have hoctets : (IpAddr.ofV6Octets (xorBytes rest (toBE 4 STUN_MAGIC ++ transaction))).octets =
              xorBytes rest (toBE 4 STUN_MAGIC ++ transaction) :=
            IpAddr.octets_ofV6Octets (by simp [hlength, htransaction])
          unfold xorAddress
          rw [port_roundtrip, hoctets, xorBytes_xorBytes (by simp [hlength, htransaction])]
          rfl
        · exact .inl rfl

end Peerward.P2p
