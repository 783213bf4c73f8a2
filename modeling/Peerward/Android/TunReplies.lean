import Peerward.Android.TunAnswers
import Peerward.Android.TunPackets

/-!
# What the interceptor writes back

Every packet it returns fits the MTU, is one the data plane accepts, and goes from the gateway the
answered packet was for back to its sender. An answer over TCP is one stream from `server_next` on.
-/

namespace Peerward.Android

open Std Peerward.Lib Peerward.Net

/-- The ends of a packet without extension headers. -/
structure Endpoints where
  protocol : UInt8
  source : IpAddr
  destination : IpAddr
  sourcePort : Nat
  destinationPort : Nat

/-- The ends at their places in the bytes. -/
def endpoints (packet : Bytes) : Option Endpoints :=
  if byteAt packet 0 >>> 4 = 4 then
    some {
      protocol := byteAt packet 9
      source := .ofV4Octets (slice packet 12 16)
      destination := .ofV4Octets (slice packet 16 20)
      sourcePort := u16At packet (headerLength packet)
      destinationPort := u16At packet (headerLength packet + 2) }
  else if byteAt packet 0 >>> 4 = 6 then
    some {
      protocol := byteAt packet 6
      source := .ofV6Octets (slice packet 8 24)
      destination := .ofV6Octets (slice packet 24 40)
      sourcePort := u16At packet 40
      destinationPort := u16At packet 42 }
  else none

/-- `reply` fits, the data plane accepts it, and its ends are those of `packet` swapped. -/
structure Answer (mtu : Nat) (packet reply : Bytes) : Prop where
  length : reply.length ≤ mtu
  swapped : ∃ asked read, endpoints packet = some asked ∧
    Between reply asked.protocol asked.destination asked.source asked.destinationPort asked.sourcePort read

/-- The packets carry `bytes` over TCP, in order, from the sequence number `start` on. -/
def Carries (packets : List Bytes) (start : BitVec 32) (bytes : Bytes) : Prop :=
  ∃ segments : List TcpRequest, packets.map parseTcp = segments.map some ∧
    (∀ i (h : i < segments.length), segments[i].sequence =
      start + BitVec.ofNat 32 ((segments.take i).flatMap TcpRequest.payload).length) ∧
    segments.flatMap TcpRequest.payload = bytes

/-- The packet from which the query of `token` was read. -/
def AskedBy (start : TunDnsProxy) (token : Nat) (packet : Bytes) (ops : List TunOp) : Prop :=
  Since TunDnsProxy.step start (fun proxy op => op = .inspect packet ∧ issues token proxy op = true)
    (fun proxy op => issues token proxy op = true) ops

/-! ## Requests -/

/-- What a request says of the packet it was read from. -/
structure UdpFrom (packet : Bytes) (request : UdpRequest) : Prop where
  family : Family request.version request.source request.destination
  header : ipHeaderLength request.version ≤ request.ipHeaderLength
  length : packet.length = request.ipHeaderLength + UDP_HEADER + request.payload.length
  ends : endpoints packet = some {
    protocol := UDP_PROTOCOL
    source := ipAddress request.version request.source
    destination := ipAddress request.version request.destination
    sourcePort := request.sourcePort
    destinationPort := request.destinationPort }
  ports : request.sourcePort < 2 ^ 16 ∧ request.destinationPort < 2 ^ 16

theorem ends_four {packet : Bytes} (hversion : byteAt packet 0 >>> 4 = 4) {protocol : UInt8}
    (hprotocol : byteAt packet 9 = protocol) : endpoints packet = some {
      protocol
      source := ipAddress 4 (slice packet 12 16)
      destination := ipAddress 4 (slice packet 16 20)
      sourcePort := u16At packet (headerLength packet)
      destinationPort := u16At packet (headerLength packet + 2) } := by
  unfold endpoints
  rw [if_pos hversion, hprotocol]
  rfl

theorem ends_six {packet : Bytes} (hversion : byteAt packet 0 >>> 4 = 6) {protocol : UInt8}
    (hprotocol : byteAt packet 6 = protocol) : endpoints packet = some {
      protocol
      source := ipAddress 6 (slice packet 8 24)
      destination := ipAddress 6 (slice packet 24 40)
      sourcePort := u16At packet 40
      destinationPort := u16At packet 42 } := by
  unfold endpoints
  rw [if_neg (by rw [hversion]; decide), if_pos hversion, hprotocol]
  rfl

theorem family_four {packet : Bytes} (h : 20 ≤ packet.length) :
    Family 4 (slice packet 12 16) (slice packet 16 20) := by
  refine ⟨.inl rfl, ?_, ?_⟩
  · rw [length_slice, if_pos rfl]
    omega
  · rw [length_slice, if_pos rfl]
    omega

theorem family_six {packet : Bytes} (h : 40 ≤ packet.length) :
    Family 6 (slice packet 8 24) (slice packet 24 40) := by
  refine ⟨.inr rfl, ?_, ?_⟩
  · rw [length_slice, if_neg (by decide)]
    omega
  · rw [length_slice, if_neg (by decide)]
    omega

theorem parseUdp_from {packet : Bytes} {request : UdpRequest} (h : parseUdp packet = some request) :
    UdpFrom packet request := by
  unfold parseUdp at h
  split at h
  · cases h
  split at h
  · next hversion =>
    split at h
    · cases h
    next hlong =>
    rw [not_or, not_not] at hlong
    dsimp only at h
    split at h
    · cases h
    next hheader =>
    simp only [not_or, not_not] at hheader
    unfold parseUdpPayload at h
    dsimp only at h
    split at h
    · cases h
    next hpayload =>
    rw [not_or, not_not] at hpayload
    cases h
    refine ⟨family_four (by omega), hheader.1.1, ?_, ends_four hversion hlong.2, u16At_lt .., u16At_lt ..⟩
    dsimp only
    rw [List.length_drop]
    omega
  split at h
  · next hversion =>
    split at h
    · cases h
    next hlong =>
    rw [not_or, not_not] at hlong
    unfold parseUdpPayload at h
    dsimp only at h
    split at h
    · cases h
    next hpayload =>
    rw [not_or, not_not] at hpayload
    cases h
    refine ⟨family_six (by omega), (by decide : 40 ≤ 40), ?_, ends_six hversion hlong.2, u16At_lt ..,
      u16At_lt ..⟩
    dsimp only
    rw [List.length_drop]
    omega
  · cases h

/-- What a TCP request says of the packet it was read from. -/
structure TcpFrom (packet : Bytes) (request : TcpRequest) : Prop where
  family : Family request.version request.source request.destination
  ends : endpoints packet = some {
    protocol := TCP_PROTOCOL
    source := ipAddress request.version request.source
    destination := ipAddress request.version request.destination
    sourcePort := request.sourcePort
    destinationPort := request.destinationPort }
  ports : request.sourcePort < 2 ^ 16 ∧ request.destinationPort < 2 ^ 16

/-- The header and the addresses are taken over. -/
theorem parseTcpPayload_some {packet : Bytes} {version : UInt8} {header : Nat} {source destination : Bytes}
    {request : TcpRequest} (h : parseTcpPayload packet version header source destination = some request) :
    request.version = version ∧ request.source = source ∧ request.destination = destination ∧
      request.sourcePort = u16At packet header ∧ request.destinationPort = u16At packet (header + 2) := by
  unfold parseTcpPayload at h
  split at h
  · cases h
  dsimp only at h
  split at h
  · cases h
  · cases h
    exact ⟨rfl, rfl, rfl, rfl, rfl⟩

theorem parseTcp_from {packet : Bytes} {request : TcpRequest} (h : parseTcp packet = some request) :
    TcpFrom packet request := by
  unfold parseTcp at h
  split at h
  · cases h
  split at h
  · next hversion =>
    split at h
    · cases h
    next hlong =>
    rw [not_or, not_not] at hlong
    dsimp only at h
    split at h
    · cases h
    obtain ⟨hv, hs, hd, hport, hport'⟩ := parseTcpPayload_some h
    refine ⟨?_, ?_, ?_⟩
    · rw [hv, hs, hd]
      exact family_four (by omega)
    · rw [hv, hs, hd, hport, hport']
      exact ends_four hversion hlong.2
    · rw [hport, hport']
      exact ⟨u16At_lt .., u16At_lt ..⟩
  split at h
  · next hversion =>
    split at h
    · cases h
    next hlong =>
    rw [not_or, not_not] at hlong
    obtain ⟨hv, hs, hd, hport, hport'⟩ := parseTcpPayload_some h
    refine ⟨?_, ?_, ?_⟩
    · rw [hv, hs, hd]
      exact family_six (by omega)
    · rw [hv, hs, hd, hport, hport']
      exact ends_six hversion hlong.2
    · rw [hport, hport']
      exact ⟨u16At_lt .., u16At_lt ..⟩
  · cases h

/-! ## Single replies -/

theorem ipHeaderLength_le (version : UInt8) : ipHeaderLength version ≤ 40 := by
  unfold ipHeaderLength
  split <;> omega

theorem UdpFrom.answer {mtu : Nat} {packet : Bytes} {request : UdpRequest} (h : UdpFrom packet request)
    (hmtu : mtu < 2 ^ 16) {dns : Bytes}
    (hdns : ipHeaderLength request.version + UDP_HEADER + dns.length ≤ mtu) :
    Answer mtu packet (buildUdpReply request dns) := by
  obtain ⟨read, hread⟩ := buildUdpReply_between h.family h.ports.1 h.ports.2 (hdns.trans_lt hmtu)
  exact ⟨(length_buildUdpReply h.family dns).trans_le hdns, _, read, h.ends, hread⟩

theorem TcpFrom.answer {mtu : Nat} {packet : Bytes} {request : TcpRequest} (h : TcpFrom packet request)
    (hmtu : mtu < 2 ^ 16) (sequence acknowledgement : BitVec 32) (flags : UInt8) {payload : Bytes}
    (hpayload : ipHeaderLength request.version + TCP_HEADER + payload.length ≤ mtu) :
    Answer mtu packet (buildTcpReply request sequence acknowledgement flags payload) := by
  obtain ⟨read, hread⟩ := buildTcpReply_between sequence acknowledgement flags h.family h.ports.1 h.ports.2
    (hpayload.trans_lt hmtu)
  exact ⟨(length_buildTcpReply sequence acknowledgement flags h.family).trans_le hpayload, _, read, h.ends,
    hread⟩

/-- A segment without payload fits every MTU. -/
theorem TcpFrom.empty {mtu : Nat} {packet : Bytes} {request : TcpRequest} (h : TcpFrom packet request)
    (hleast : 576 ≤ mtu) (hmtu : mtu < 2 ^ 16) (sequence acknowledgement : BitVec 32) (flags : UInt8) :
    Answer mtu packet (buildTcpReply request sequence acknowledgement flags []) := by
  refine h.answer hmtu _ _ _ ?_
  have := ipHeaderLength_le request.version
  simp only [List.length_nil, TCP_HEADER]
  omega

theorem length_errorReply (query : Bytes) (code : Nat) (truncated : Bool) :
    (errorReply query code truncated).length = max 12 query.length := by
  unfold errorReply
  split
  · rw [List.length_replicate]
    omega
  · next hlong =>
    have hroom : 2 + (toBE 2 (0x8000 ||| (u16At query 2 &&& 0x0100) ||| code |||
        (if truncated then 0x0200 else 0))).length ≤ query.length := by
      rw [length_toBE]
      omega
    dsimp only
    rw [length_overwrite (by rw [length_overwrite hroom, List.length_replicate]; omega),
      length_overwrite hroom]
    omega

/-- What is sent for a UDP answer fits the MTU. -/
theorem udpAnswer_fits {proxy : TunDnsProxy} (hleast : 576 ≤ proxy.mtu) {packet : Bytes}
    {request : UdpRequest} (h : UdpFrom packet request) (hpacket : packet.length ≤ proxy.mtu)
    (response : Bytes) : ipHeaderLength request.version + UDP_HEADER
      + (proxy.udpAnswer request response).length ≤ proxy.mtu := by
  have hheader := h.header
  have hlength := h.length
  have hsmall := ipHeaderLength_le request.version
  have herror : ∀ code truncated, ipHeaderLength request.version + UDP_HEADER
      + (errorReply request.payload code truncated).length ≤ proxy.mtu := by
    intro code truncated
    rw [length_errorReply]
    unfold UDP_HEADER at hlength ⊢
    omega
  unfold TunDnsProxy.udpAnswer
  split
  · exact herror ..
  split
  · exact herror ..
  · omega

/-! ## Segments

A DNS answer over TCP is its two-byte length and the message, cut into pieces that fit the MTU. The pieces
are consecutive, so reading them back gives the stream.
-/

/-- The payload that fits a segment. -/
def segmentSize (mtu : Nat) (version : UInt8) : Nat := max (mtu - (ipHeaderLength version + TCP_HEADER)) 1

theorem segmentSize_fits {mtu : Nat} (hleast : 576 ≤ mtu) (version : UInt8) :
    0 < segmentSize mtu version ∧ ipHeaderLength version + TCP_HEADER + segmentSize mtu version ≤ mtu := by
  have := ipHeaderLength_le version
  unfold segmentSize TCP_HEADER
  omega

theorem length_le_of_mem_chunks {bytes piece : Bytes} {stride : Nat} (h : piece ∈ chunks bytes stride) :
    piece.length ≤ stride := by
  unfold chunks at h
  obtain ⟨index, -, rfl⟩ := List.mem_map.mp h
  rw [length_slice]
  omega

theorem segments_answer {mtu : Nat} (hleast : 576 ≤ mtu) (hmtu : mtu < 2 ^ 16) {packet : Bytes}
    {request : TcpRequest} (h : TcpFrom packet request) (flow : TcpFlow) (framed : Bytes)
    (start : BitVec 32) : ∀ reply ∈ segmentTcpResponse mtu request flow framed start,
      Answer mtu packet reply := by
  intro reply hreply
  unfold segmentTcpResponse at hreply
  obtain ⟨index, hindex, rfl⟩ := List.mem_mapIdx.mp hreply
  refine h.answer hmtu _ _ _ ?_
  have hpiece : ((chunks framed (segmentSize mtu request.version)).get ⟨index, hindex⟩).length ≤
      segmentSize mtu request.version := length_le_of_mem_chunks (List.get_mem ..)
  exact (Nat.add_le_add_left hpiece _).trans (segmentSize_fits hleast request.version).2

/-- The first pieces are the start of the bytes. -/
theorem flatten_take_chunks (bytes : Bytes) {stride i : Nat} (hi : i ≤ (chunks bytes stride).length) :
    ((chunks bytes stride).take i).flatten = bytes.take (i * stride) := by
  rw [length_chunks] at hi
  unfold chunks
  rw [← List.map_take, List.take_range, Nat.min_eq_left hi, flatten_slices]

/-- What a piece of a response is read back as. -/
def segmentOf (mtu : Nat) (request : TcpRequest) (count : Nat) (start : BitVec 32) (index : Nat)
    (payload : Bytes) : TcpRequest where
  version := request.version
  source := request.destination
  destination := request.source
  sourcePort := request.destinationPort
  destinationPort := request.sourcePort
  sequence := start + u32OrMax (index * segmentSize mtu request.version)
  flags := (TCP_ACK ||| if index + 1 = count then TCP_PSH else 0) &&& 0x3f
  payload

/-- **An answer over TCP is one stream.** -/
theorem segments_carry {mtu : Nat} (hleast : 576 ≤ mtu) (hmtu : mtu < 2 ^ 16) {packet : Bytes}
    {request : TcpRequest} (h : TcpFrom packet request) (flow : TcpFlow) {framed : Bytes}
    (hframed : framed.length < 2 ^ 32) (start : BitVec 32) :
    Carries (segmentTcpResponse mtu request flow framed start) start framed := by
  obtain ⟨hpositive, hfits⟩ := segmentSize_fits hleast request.version
  have hflatten := flatten_chunks framed hpositive
  have htake := fun i => @flatten_take_chunks framed (segmentSize mtu request.version) i
  have hmember := fun piece => @length_le_of_mem_chunks framed piece (segmentSize mtu request.version)
  have hlength := length_chunks framed (segmentSize mtu request.version)
  unfold segmentTcpResponse
  dsimp only
  rw [show max (mtu - (ipHeaderLength request.version + TCP_HEADER)) 1 =
    segmentSize mtu request.version from rfl]
  generalize chunks framed (segmentSize mtu request.version) = pieces at *
  have hpayloads : (pieces.mapIdx (segmentOf mtu request pieces.length start)).map TcpRequest.payload =
      pieces :=
    List.ext_getElem (by simp) fun i _ _ => by simp [segmentOf]
  refine ⟨pieces.mapIdx (segmentOf mtu request pieces.length start), ?_, fun i hi => ?_, ?_⟩
  · refine List.ext_getElem (by simp) fun i hi _ => ?_
    rw [List.length_map, List.length_mapIdx] at hi
    rw [List.getElem_map, List.getElem_map, List.getElem_mapIdx, List.getElem_mapIdx]
    have hpiece := hmember pieces[i] (List.getElem_mem hi)
    exact parseTcp_buildTcpReply _ _ _ h.family h.ports.1 h.ports.2 (by omega)
  · rw [List.length_mapIdx] at hi
    rw [List.getElem_mapIdx, List.flatMap_def, List.map_take, hpayloads, htake i hi.le, List.length_take]
    have hbefore : i * segmentSize mtu request.version < framed.length := by
      rw [hlength] at hi
      exact (lt_divCeil_iff hpositive).mp hi
    rw [Nat.min_eq_left hbefore.le]
    unfold segmentOf u32OrMax
    dsimp only
    rw [Nat.min_eq_left (by omega)]
  · rw [List.flatMap_def, hpayloads, hflatten]

/-! ## Runs

What waits in the table was read from a packet of the run, so the ends of every later answer are those of
that packet, turned around.
-/

/-- What a waiting query says of the packet it was read from. -/
def ReadFrom (packet : Bytes) : PendingQuery → Prop
  | .udp request => parseUdp packet = some request
  | .tcp _ request query => parseTcp packet = some request ∧ query.length ≤ MAX_DNS_MESSAGE

/-- A query that waits behind a packet has been read from it, or was waiting before. -/
theorem waiting_inspect {proxy : TunDnsProxy} {packet : Bytes} {token : Nat} {waiting : PendingQuery}
    (h : (proxy.inspect packet).2.pending[token]? = some waiting) :
    (issues token proxy (.inspect packet) = true ∧ ReadFrom packet waiting) ∨
    (issues token proxy (.inspect packet) = false ∧ proxy.pending[token]? = some waiting) := by
  unfold issues
  dsimp only
  have hinspected := inspected proxy packet
  generalize proxy.inspect packet = outcome at hinspected h ⊢
  cases hinspected with
  | udp hparse =>
      obtain ⟨⟨rfl, -⟩, _, _, _, hissued⟩ | ⟨hother, hwaits⟩ := pending_issue h
      · rw [hissued]
        exact .inl ⟨decide_eq_true rfl, hparse⟩
      · refine .inr ⟨?_, hwaits⟩
        split
        · next hissued => exact decide_eq_false fun heq => hother _ _ _ (heq ▸ hissued)
        · rfl
  | query haddressed =>
      obtain ⟨⟨rfl, hlength⟩, _, _, _, hissued⟩ | ⟨hother, hwaits⟩ := pending_issue h
      · rw [hissued]
        exact .inl ⟨decide_eq_true rfl, haddressed.parse, hlength⟩
      · refine .inr ⟨?_, hwaits⟩
        split
        · next hissued => exact decide_eq_false fun heq => hother _ _ _ (heq ▸ hissued)
        · rfl
  | opened =>
      rw [pending_insertFlow] at h
      exact .inr ⟨rfl, h⟩
  | _ => exact .inr ⟨rfl, h⟩

theorem waiting_complete {proxy : TunDnsProxy} {completed' : Nat} {response : Bytes} {token : Nat}
    {waiting : PendingQuery}
    (h : (proxy.complete completed' response).2.pending[token]? = some waiting) :
    proxy.pending[token]? = some waiting := by
  have htake : ∀ taken, (proxy.take taken).pending[token]? = some waiting →
      proxy.pending[token]? = some waiting := by
    intro taken htaken
    replace htaken : (proxy.pending.erase taken)[token]? = _ := htaken
    rw [ExtTreeMap.getElem?_erase] at htaken
    split at htaken
    · cases htaken
    · exact htaken
  have hcompleted := completed proxy completed' response
  generalize proxy.complete completed' response = outcome at hcompleted h
  cases hcompleted with
  | invalid | unknown => exact h
  | udp | dropped | tcp => exact htake _ h

/-- **A waiting query was read from a packet of the run.** -/
theorem waiting_asked {start : TunDnsProxy} (hempty : start.pending = ∅) {ops : List TunOp} {token : Nat}
    {waiting : PendingQuery} (h : (start.after ops).pending[token]? = some waiting) :
    ∃ packet, TunOp.inspect packet ∈ ops ∧ AskedBy start token packet ops ∧ ReadFrom packet waiting := by
  induction ops using List.reverseRecOn with
  | nil =>
      unfold TunDnsProxy.after at h
      rw [exec_nil, hempty, ExtTreeMap.getElem?_empty] at h
      cases h
  | append_singleton ops op ih =>
      unfold TunDnsProxy.after at h
      rw [exec_concat] at h
      have hlater : (∀ proxy, proxy = start.after ops → ¬ issues token proxy op = true) →
          (start.after ops).pending[token]? = some waiting →
          ∃ packet, TunOp.inspect packet ∈ ops ++ [op] ∧ AskedBy start token packet (ops ++ [op]) ∧
            ReadFrom packet waiting := by
        intro hnot hwaits
        obtain ⟨packet, hmem, hasked, hread⟩ := ih hwaits
        exact ⟨packet, List.mem_append_left _ hmem, hasked.concat (hnot _ rfl), hread⟩
      cases op with
      | inspect packet =>
          obtain ⟨hissues, hread⟩ | ⟨hissues, hwaits⟩ := waiting_inspect h
          · exact ⟨packet, List.mem_append_right _ (List.mem_singleton_self _),
              since_now ⟨rfl, hissues⟩, hread⟩
          · refine hlater (fun proxy hproxy => ?_) hwaits
            subst hproxy
            exact fun hyes => Bool.false_ne_true (hissues.symm.trans hyes)
      | complete completed' response =>
          exact hlater (fun _ _ => Bool.false_ne_true) (waiting_complete h)

theorem mtu_insertFlow (proxy : TunDnsProxy) (key : TcpKey) (request : TcpRequest) :
    (proxy.insertFlow key request).mtu = proxy.mtu := by
  unfold TunDnsProxy.insertFlow TunDnsProxy.evictOldest
  split
  · split <;> rfl
  · rfl

theorem mtu_issue (proxy : TunDnsProxy) (query : PendingQuery) (transport : TunDnsTransport)
    (source message : Bytes) : (proxy.issue query transport source message).2.mtu = proxy.mtu := by
  unfold TunDnsProxy.issue
  split <;> rfl

theorem mtu_step (proxy : TunDnsProxy) (op : TunOp) : (proxy.step op).mtu = proxy.mtu := by
  cases op with
  | inspect packet =>
      unfold TunDnsProxy.step
      dsimp only
      have hinspected := inspected proxy packet
      generalize proxy.inspect packet = outcome at hinspected
      cases hinspected with
      | udp => exact mtu_issue ..
      | query => exact mtu_issue ..
      | opened => exact mtu_insertFlow ..
      | _ => rfl
  | complete token response =>
      unfold TunDnsProxy.step
      dsimp only
      have hcompleted := completed proxy token response
      generalize proxy.complete token response = outcome at hcompleted
      cases hcompleted <;> rfl

theorem mtu_after (start : TunDnsProxy) (ops : List TunOp) : (start.after ops).mtu = start.mtu :=
  exec_invariant (I := fun proxy => proxy.mtu = start.mtu) rfl
    (fun proxy op h => (mtu_step proxy op).trans h) ops

/-- **The replies to a packet.** -/
theorem inspect_answers {proxy : TunDnsProxy} (hleast : 576 ≤ proxy.mtu) (hmtu : proxy.mtu < 2 ^ 16)
    {packet : Bytes} {replies : List Bytes} (h : (proxy.inspect packet).1 = .ok (.replies replies)) :
    ∀ reply ∈ replies, Answer proxy.mtu packet reply := by
  have hinspected := inspected proxy packet
  generalize proxy.inspect packet = outcome at hinspected h
  intro reply hreply
  cases hinspected with
  | oversized | pass => cases h
  | udp | query =>
      unfold TunDnsProxy.issue at h
      split at h <;> cases h
  | reset | empty =>
      cases h
      cases hreply
  | opened haddressed | closed haddressed | unknown haddressed | outOfOrder haddressed
  | overflow haddressed | unfinished haddressed | surplus haddressed =>
      cases h
      rw [List.mem_singleton.mp hreply]
      exact (parseTcp_from haddressed.parse).empty hleast hmtu ..
  | repeated haddressed =>
      cases h
      exact segments_answer hleast hmtu (parseTcp_from haddressed.parse) _ _ _ _ hreply

/-- The message behind its two-byte length: the response, or the error reply in place of an empty one. -/
def framedAnswer (query response : Bytes) : Bytes :=
  let dns := if response = [] then errorReply query 2 false else response
  toBE 2 dns.length ++ dns

theorem tcpAnswer_eq {query response : Bytes} (hquery : query.length ≤ MAX_DNS_MESSAGE)
    (hresponse : response.length ≤ MAX_DNS_MESSAGE) :
    tcpAnswer query response = framedAnswer query response ∧
      (framedAnswer query response).length ≤ MAX_TCP_DNS_FRAME := by
  have hsmall : (if response = [] then errorReply query 2 false else response).length ≤ MAX_DNS_MESSAGE := by
    split
    · rw [length_errorReply]
      exact max_le (by decide) hquery
    · exact hresponse
  unfold tcpAnswer framedAnswer u16OrMax
  dsimp only
  rw [Nat.min_eq_left (show _ ≤ 0xffff from hsmall), List.length_append, length_toBE]
  exact ⟨rfl, Nat.add_le_add_left hsmall 2⟩

/-- **The packets of an answer.** -/
theorem complete_answers {start : TunDnsProxy} (hempty : start.pending = ∅) (hleast : 576 ≤ start.mtu)
    (hmtu : start.mtu < 2 ^ 16) {ops : List TunOp}
    (hops : ∀ packet, TunOp.inspect packet ∈ ops → packet.length ≤ start.mtu) {token : Nat}
    {response : Bytes} {packets : List Bytes}
    (h : ((start.after ops).complete token response).1 = .ok packets) :
    (∃ packet, AskedBy start token packet ops ∧ ∀ reply ∈ packets, Answer start.mtu packet reply) ∧
    ∀ key request query, (start.after ops).pending[token]? = some (.tcp key request query) →
      ∃ flow, (start.after ops).tcpFlows[key]? = some flow ∧
        Carries packets flow.serverNext (framedAnswer query response) := by
  have hsame := mtu_after start ops
  have hasked := @waiting_asked start hempty ops token
  generalize start.after ops = proxy at *
  have hcompleted := completed proxy token response
  generalize proxy.complete token response = outcome at hcompleted h
  cases hcompleted with
  | invalid | unknown | dropped => cases h
  | udp _ hquery =>
      cases h
      obtain ⟨packet, hmem, hby, hread⟩ := hasked hquery
      have hfrom := parseUdp_from hread
      refine ⟨⟨packet, hby, fun reply hreply => ?_⟩, fun key request query htcp => ?_⟩
      · rw [List.mem_singleton.mp hreply]
        refine hfrom.answer hmtu ?_
        rw [← hsame]
        exact udpAnswer_fits (hsame ▸ hleast) hfrom (hsame ▸ hops packet hmem) response
      · cases hquery.symm.trans htcp
  | @tcp key request query flow hvalid hquery hflow =>
      cases h
      obtain ⟨packet, hmem, hby, hparse, hlength⟩ := hasked hquery
      have hfrom := parseTcp_from hparse
      rw [not_or, Nat.not_lt] at hvalid
      obtain ⟨hframed, hsmall⟩ := tcpAnswer_eq hlength hvalid.2
      rw [hframed, hsame]
      refine ⟨⟨packet, hby, segments_answer hleast hmtu hfrom _ _ _⟩, fun key' request' query' htcp => ?_⟩
      cases hquery.symm.trans htcp
      exact ⟨flow, hflow, segments_carry hleast hmtu hfrom flow
        (hsmall.trans_lt (by decide : MAX_TCP_DNS_FRAME < 2 ^ 32)) _⟩

/-- Every packet written back, in every state of a run over packets that fit the MTU, fits the MTU, is one
the data plane accepts, and goes back to the sender of the packet it answers; the packets of a TCP answer
are one stream from `server_next` on, the response behind its length. -/
theorem replies_well_formed {servers : List Bytes} {mtu : Nat} {start : TunDnsProxy}
    (hnew : TunDnsProxy.new servers mtu = .ok start) (ops : List TunOp)
    (hops : ∀ packet, TunOp.inspect packet ∈ ops → packet.length ≤ mtu) :
    (∀ packet replies, packet.length ≤ mtu →
      ((start.after ops).inspect packet).1 = .ok (.replies replies) →
      ∀ reply ∈ replies, Answer mtu packet reply) ∧
    ∀ token response packets, ((start.after ops).complete token response).1 = .ok packets →
      (∃ packet, AskedBy start token packet ops ∧ ∀ reply ∈ packets, Answer mtu packet reply) ∧
      ∀ key request query, (start.after ops).pending[token]? = some (.tcp key request query) →
        ∃ flow, (start.after ops).tcpFlows[key]? = some flow ∧
          Carries packets flow.serverNext (framedAnswer query response) := by
  obtain ⟨hempty, hsame, hleast, hmtu⟩ : start.pending = ∅ ∧ start.mtu = mtu ∧ 576 ≤ mtu ∧ mtu < 2 ^ 16 := by
    unfold TunDnsProxy.new at hnew
    split at hnew
    · cases hnew
    · next hvalid =>
      cases hnew
      simp only [not_or, Nat.not_lt] at hvalid
      exact ⟨rfl, rfl, hvalid.2.2.1, by omega⟩
  subst hsame
  refine ⟨fun packet replies _ h => ?_, fun token response packets h =>
    complete_answers hempty hleast hmtu hops h⟩
  have hafter := mtu_after start ops
  have hanswers := inspect_answers (hafter.symm ▸ hleast) (hafter.symm ▸ hmtu) h
  rw [hafter] at hanswers
  exact hanswers

theorem replies_well_formed_gateway : ∃ packets,
    ((gateway.after askingRun).complete 1 [1, 2, 3]).1 = .ok packets ∧
    ∃ packet, AskedBy gateway 1 packet askingRun ∧ ∀ reply ∈ packets, Answer 1380 packet reply := by
  have hops : ∀ packet, TunOp.inspect packet ∈ askingRun → packet.length ≤ 1380 := by
    intro packet hmem
    simp only [askingRun, List.mem_cons, TunOp.inspect.injEq, List.not_mem_nil, or_false] at hmem
    obtain rfl | rfl := hmem <;> decide
  refine ⟨_, rfl, ?_⟩
  exact ((replies_well_formed new_gateway askingRun hops).2 1 [1, 2, 3] _ rfl).1

end Peerward.Android
