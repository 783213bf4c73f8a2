import Peerward.Android.TunDns
import Peerward.Lib.Run

/-!
# What a packet does to the interceptor

`Inspected` lists the outcomes of `inspect` with the state behind each; everything about packets is read
off it. Its first use is the bookkeeping of the two tables: flows and their order name the same keys, and
both tables are bounded.
-/

namespace Peerward.Android

open Std Peerward.Lib

/-- A TCP packet to one of the gateways. -/
structure Addressed (proxy : TunDnsProxy) (packet : Bytes) (request : TcpRequest) : Prop where
  parse : parseTcp packet = some request
  target : proxy.isDnsTarget request.destination request.destinationPort = true
  length : packet.length ≤ 0xffff
  protocol : TunDnsProxy.protocolOf packet = some TCP_PROTOCOL

/-- The packet opens a connection. -/
def opens (request : TcpRequest) : Prop :=
  request.flags &&& TCP_RST = 0 ∧ request.flags &&& TCP_SYN ≠ 0 ∧ request.flags &&& TCP_ACK = 0

instance (request : TcpRequest) : Decidable (opens request) := by
  unfold opens
  infer_instance

/-- The packet neither resets nor opens nor closes a connection. -/
structure Plain (request : TcpRequest) : Prop where
  rst : request.flags &&& TCP_RST = 0
  syn : ¬ (request.flags &&& TCP_SYN ≠ 0 ∧ request.flags &&& TCP_ACK = 0)
  fin : request.flags &&& TCP_FIN = 0

/-- The packet brings the next bytes of the stream. -/
structure Next (flow : TcpFlow) (request : TcpRequest) : Prop where
  plain : Plain request
  nonempty : request.payload ≠ []
  inOrder : request.sequence = flow.clientNext

/-- The stream is a whole query behind its length. -/
structure Whole (input : Bytes) : Prop where
  length : input.length = u16At input 0 + 2
  minimum : 12 ≤ u16At input 0
  maximum : u16At input 0 ≤ MAX_DNS_MESSAGE

/-- The stream so far is too short for its length, or has no acceptable one. -/
def Unfinished (input : Bytes) : Prop :=
  input.length < 2 ∨ ¬ (12 ≤ u16At input 0 ∧ u16At input 0 ≤ MAX_DNS_MESSAGE)
    ∨ input.length < u16At input 0 + 2

inductive Inspected (proxy : TunDnsProxy) (packet : Bytes) :
    Except MobileError TunDnsDecision × TunDnsProxy → Prop
  | oversized (h : 0xffff < packet.length) : Inspected proxy packet (.error .invalidInput, proxy)
  | pass (h : ∀ request, ¬ Addressed proxy packet request) : Inspected proxy packet (.ok .pass, proxy)
  | udp {request : UdpRequest} (hparse : parseUdp packet = some request)
      (h : ∀ request, ¬ Addressed proxy packet request) :
      Inspected proxy packet (proxy.issue (.udp request) .udp request.source request.payload)
  | reset {request : TcpRequest} (h : Addressed proxy packet request)
      (hrst : request.flags &&& TCP_RST ≠ 0) :
      Inspected proxy packet (.ok (.replies []), proxy.removeFlow request.key)
  | opened {request : TcpRequest} (h : Addressed proxy packet request) (hopens : opens request) :
      Inspected proxy packet (.ok (.replies [buildTcpReply request
        ((freshFlow request.key request).serverNext - 1) (freshFlow request.key request).clientNext
        (TCP_SYN ||| TCP_ACK) []]), proxy.insertFlow request.key request)
  | unknown {request : TcpRequest} (h : Addressed proxy packet request) (hopens : ¬ opens request)
      (hflow : proxy.tcpFlows[request.key]? = none) :
      Inspected proxy packet (.ok (.replies [buildTcpReset request]), proxy)
  | closed {request : TcpRequest} {flow : TcpFlow} (h : Addressed proxy packet request)
      (hflow : proxy.tcpFlows[request.key]? = some flow) (hopens : ¬ opens request)
      (hfin : request.flags &&& TCP_FIN ≠ 0) :
      Inspected proxy packet (.ok (.replies [buildTcpReply request flow.serverNext (request.sequence + 1)
        (TCP_FIN ||| TCP_ACK) []]), proxy.removeFlow request.key)
  | empty {request : TcpRequest} {flow : TcpFlow} (h : Addressed proxy packet request)
      (hflow : proxy.tcpFlows[request.key]? = some flow) (hplain : Plain request)
      (hpayload : request.payload = []) : Inspected proxy packet (.ok (.replies []), proxy)
  | repeated {request : TcpRequest} {flow : TcpFlow} {last : Bytes} (h : Addressed proxy packet request)
      (hflow : proxy.tcpFlows[request.key]? = some flow) (hplain : Plain request)
      (hsequence : request.sequence ≠ flow.clientNext) (hlast : flow.lastResponse = some last) :
      Inspected proxy packet (.ok (.replies (segmentTcpResponse proxy.mtu request flow last
        (flow.responseStart.getD flow.serverNext))), proxy)
  | outOfOrder {request : TcpRequest} {flow : TcpFlow} (h : Addressed proxy packet request)
      (hflow : proxy.tcpFlows[request.key]? = some flow) (hplain : Plain request)
      (hsequence : request.sequence ≠ flow.clientNext) :
      Inspected proxy packet (.ok (.replies [acknowledge request flow]), proxy)
  | overflow {request : TcpRequest} {flow : TcpFlow} (h : Addressed proxy packet request)
      (hflow : proxy.tcpFlows[request.key]? = some flow) (hnext : Next flow request)
      (hlength : MAX_TCP_DNS_FRAME < flow.input.length + request.payload.length) :
      Inspected proxy packet (.ok (.replies [buildTcpReset request]), proxy.removeFlow request.key)
  | unfinished {request : TcpRequest} {flow : TcpFlow} (h : Addressed proxy packet request)
      (hflow : proxy.tcpFlows[request.key]? = some flow) (hnext : Next flow request)
      (hlength : flow.input.length + request.payload.length ≤ MAX_TCP_DNS_FRAME)
      (hinput : Unfinished (flow.extend request.payload).input) :
      Inspected proxy packet (.ok (.replies [acknowledge request (flow.extend request.payload)]),
        proxy.setFlow request.key (flow.extend request.payload))
  | surplus {request : TcpRequest} {flow : TcpFlow} (h : Addressed proxy packet request)
      (hflow : proxy.tcpFlows[request.key]? = some flow) (hnext : Next flow request)
      (hlength : u16At (flow.extend request.payload).input 0 + 2 <
        (flow.extend request.payload).input.length) :
      Inspected proxy packet (.ok (.replies [buildTcpReset request]),
        (proxy.setFlow request.key (flow.extend request.payload)).removeFlow request.key)
  | query {request : TcpRequest} {flow : TcpFlow} (h : Addressed proxy packet request)
      (hflow : proxy.tcpFlows[request.key]? = some flow) (hnext : Next flow request)
      (hwhole : Whole (flow.extend request.payload).input) :
      Inspected proxy packet ((proxy.setFlow request.key (flow.extend request.payload)).issue
        (.tcp request.key request ((flow.extend request.payload).input.drop 2)) .tcp request.source
        ((flow.extend request.payload).input.drop 2))

variable {proxy : TunDnsProxy} {packet : Bytes}

theorem inspected_flow {request : TcpRequest} {flow : TcpFlow} (h : Addressed proxy packet request)
    (hflow : proxy.tcpFlows[request.key]? = some flow) (hrst : request.flags &&& TCP_RST = 0)
    (hsyn : ¬ (request.flags &&& TCP_SYN ≠ 0 ∧ request.flags &&& TCP_ACK = 0)) :
    Inspected proxy packet (proxy.inspectFlow request.key flow request) := by
  unfold TunDnsProxy.inspectFlow
  split
  · next hfin => exact .closed h hflow (fun hopens => hsyn hopens.2) hfin
  next hfin =>
  have hplain : Plain request := ⟨hrst, hsyn, not_not.mp hfin⟩
  split
  · next hpayload => exact .empty h hflow hplain hpayload
  next hpayload =>
  split
  · next hsequence =>
    split
    · next hlast => exact .repeated h hflow hplain hsequence hlast
    · exact .outOfOrder h hflow hplain hsequence
  next hsequence =>
  have hnext : Next flow request := ⟨hplain, hpayload, not_not.mp hsequence⟩
  split
  · next hlength => exact .overflow h hflow hnext hlength
  next hlength =>
  dsimp only
  split
  · next hshort => exact .unfinished h hflow hnext (by omega) (.inl hshort)
  next hshort =>
  split
  · next hpartial => exact .unfinished h hflow hnext (by omega) (.inr hpartial)
  next hpartial =>
  rw [not_or, not_not] at hpartial
  split
  · next hsurplus => exact .surplus h hflow hnext (by omega)
  · next hwhole =>
    exact .query h hflow hnext ⟨not_not.mp hwhole, hpartial.1.1, hpartial.1.2⟩

/-- **What a packet does.** -/
theorem inspected (proxy : TunDnsProxy) (packet : Bytes) :
    Inspected proxy packet (proxy.inspect packet) := by
  unfold TunDnsProxy.inspect
  split
  · next h => exact .oversized h
  next hlength =>
  split
  · next hprotocol =>
    unfold TunDnsProxy.inspectTcp
    split
    · next hparse => exact .pass fun request h => by cases hparse.symm.trans h.parse
    next request hparse =>
    split
    · next htarget =>
      refine .pass fun request' h => ?_
      cases Option.some.inj (hparse.symm.trans h.parse)
      rw [h.target] at htarget
      cases htarget
    next htarget =>
    rw [Bool.not_eq_true', Bool.not_eq_false] at htarget
    have h : Addressed proxy packet request := ⟨hparse, htarget, Nat.not_lt.mp hlength, hprotocol⟩
    dsimp only
    split
    · next hrst => exact .reset h hrst
    next hrst =>
    split
    · next hsyn => exact .opened h ⟨not_not.mp hrst, hsyn⟩
    next hsyn =>
    split
    · next hflow => exact .unknown h (fun hopens => hsyn hopens.2) hflow
    · next flow hflow => exact inspected_flow h hflow (not_not.mp hrst) hsyn
  · next hprotocol =>
    have hother : ∀ request, ¬ Addressed proxy packet request := fun _ h => hprotocol h.protocol
    split
    · exact .pass hother
    next request hparse =>
    split
    · exact .pass hother
    · exact .udp hparse hother

/-- A packet that opens a connection. -/
theorem inspect_opens {request : TcpRequest} (h : Addressed proxy packet request) (hopens : opens request) :
    proxy.inspect packet = (.ok (.replies [buildTcpReply request
      ((freshFlow request.key request).serverNext - 1) (freshFlow request.key request).clientNext
      (TCP_SYN ||| TCP_ACK) []]), proxy.insertFlow request.key request) := by
  unfold TunDnsProxy.inspect TunDnsProxy.inspectTcp
  rw [if_neg (Nat.not_lt.mpr h.length), if_pos h.protocol, h.parse]
  simp only [h.target, Bool.not_true, Bool.false_eq_true, if_false, hopens.1, ne_eq, not_true]
  rw [if_pos hopens.2]

/-- The proxy without the query of `token`. -/
def TunDnsProxy.take (proxy : TunDnsProxy) (token : Nat) : TunDnsProxy :=
  { proxy with pending := proxy.pending.erase token }

inductive Completed (proxy : TunDnsProxy) (token : Nat) (response : Bytes) :
    Except MobileError (List Bytes) × TunDnsProxy → Prop
  | invalid (h : token = 0 ∨ MAX_DNS_MESSAGE < response.length) :
      Completed proxy token response (.error .invalidInput, proxy)
  | unknown (hquery : proxy.pending[token]? = none) :
      Completed proxy token response (.error .invalidState, proxy)
  | udp {request : UdpRequest} (h : ¬ (token = 0 ∨ MAX_DNS_MESSAGE < response.length))
      (hquery : proxy.pending[token]? = some (.udp request)) :
      Completed proxy token response
        (.ok [buildUdpReply request (proxy.udpAnswer request response)], proxy.take token)
  | dropped {key : TcpKey} {request : TcpRequest} {query : Bytes}
      (h : ¬ (token = 0 ∨ MAX_DNS_MESSAGE < response.length))
      (hquery : proxy.pending[token]? = some (.tcp key request query))
      (hflow : proxy.tcpFlows[key]? = none) :
      Completed proxy token response (.error .invalidState, proxy.take token)
  | tcp {key : TcpKey} {request : TcpRequest} {query : Bytes} {flow : TcpFlow}
      (h : ¬ (token = 0 ∨ MAX_DNS_MESSAGE < response.length))
      (hquery : proxy.pending[token]? = some (.tcp key request query))
      (hflow : proxy.tcpFlows[key]? = some flow) :
      Completed proxy token response
        (.ok (segmentTcpResponse proxy.mtu request flow (tcpAnswer query response) flow.serverNext),
          (proxy.take token).setFlow key (flow.answered (tcpAnswer query response)))

/-- **What an answer does.** -/
theorem completed (proxy : TunDnsProxy) (token : Nat) (response : Bytes) :
    Completed proxy token response (proxy.complete token response) := by
  unfold TunDnsProxy.complete
  split
  · next h => exact .invalid h
  next h =>
  split
  · next hquery => exact .unknown hquery
  next query hquery =>
  dsimp only
  split
  · exact .udp h hquery
  · split
    · next hflow => exact .dropped h hquery hflow
    · next flow hflow => exact .tcp h hquery hflow

/-! ## Runs -/

inductive TunOp where
  | inspect (packet : Bytes)
  | complete (token : Nat) (response : Bytes)

def TunDnsProxy.step (proxy : TunDnsProxy) : TunOp → TunDnsProxy
  | .inspect packet => (proxy.inspect packet).2
  | .complete token response => (proxy.complete token response).2

/-- The proxy behind a run. -/
def TunDnsProxy.after (proxy : TunDnsProxy) (ops : List TunOp) : TunDnsProxy :=
  exec TunDnsProxy.step proxy ops

/-! ## The tables

A flow is inserted after the oldest one was evicted for it, and removed from the list and the order at
once. That is all the bookkeeping there is, and every operation keeps it.
-/

/-- The order lists the flows, each once, and both tables keep their bounds. -/
structure Tidy (proxy : TunDnsProxy) : Prop where
  nodup : proxy.flowOrder.Nodup
  mem_iff : ∀ key, key ∈ proxy.flowOrder ↔ key ∈ proxy.tcpFlows
  flows_le : proxy.tcpFlows.size ≤ MAX_TCP_FLOWS
  pending_le : proxy.pending.size ≤ MAX_PENDING_QUERIES

theorem issue_cases (proxy : TunDnsProxy) (query : PendingQuery) (transport : TunDnsTransport)
    (source message : Bytes) :
    ((MAX_PENDING_QUERIES ≤ proxy.pending.size ∨ MAX_DNS_MESSAGE < message.length) ∧
      proxy.issue query transport source message = (.error .invalidState, proxy)) ∨
    (proxy.pending.size < MAX_PENDING_QUERIES ∧ message.length ≤ MAX_DNS_MESSAGE ∧
      ∃ next, (proxy.nextToken + 1 < 2 ^ 64 → next = proxy.nextToken + 1) ∧
        proxy.issue query transport source message =
        (.ok (.resolve proxy.nextToken transport source message), { proxy with
          nextToken := next
          pending := proxy.pending.insert proxy.nextToken query })) := by
  unfold TunDnsProxy.issue
  split
  · next h => exact .inl ⟨h, rfl⟩
  · next h =>
    rw [not_or, Nat.not_le, Nat.not_lt] at h
    exact .inr ⟨h.1, h.2, _, fun hfits => if_pos hfits, rfl⟩

namespace Tidy

theorem new {servers : List Bytes} {mtu : Nat} (h : TunDnsProxy.new servers mtu = .ok proxy) : Tidy proxy := by
  unfold TunDnsProxy.new at h
  split at h
  · cases h
  · cases h
    exact ⟨List.nodup_nil, fun key => by simp, Nat.zero_le _, Nat.zero_le _⟩

theorem issue (h : Tidy proxy) (query : PendingQuery) (transport : TunDnsTransport)
    (source message : Bytes) : Tidy (proxy.issue query transport source message).2 := by
  obtain ⟨-, heq⟩ | ⟨hroom, -, next, -, heq⟩ := issue_cases proxy query transport source message
  · rw [heq]
    exact h
  · rw [heq]
    refine ⟨h.nodup, h.mem_iff, h.flows_le, ?_⟩
    exact (ExtTreeMap.size_insert_le ..).trans hroom

theorem removeFlow (h : Tidy proxy) (key : TcpKey) : Tidy (proxy.removeFlow key) where
  nodup := h.nodup.filter _
  mem_iff other := by
    simp only [TunDnsProxy.removeFlow, List.mem_filter, h.mem_iff, ExtTreeMap.mem_erase,
      Std.compare_eq_iff_eq, ne_eq, decide_eq_true_eq, eq_comm (a := key)]
    exact and_comm
  flows_le := (ExtTreeMap.size_erase_le ..).trans h.flows_le
  pending_le := h.pending_le

theorem setFlow (h : Tidy proxy) {key : TcpKey} {flow : TcpFlow}
    (hflow : proxy.tcpFlows[key]? = some flow) (flow' : TcpFlow) : Tidy (proxy.setFlow key flow') where
  nodup := h.nodup
  mem_iff other := by
    simp only [TunDnsProxy.setFlow, h.mem_iff, ExtTreeMap.mem_insert, Std.compare_eq_iff_eq]
    refine ⟨.inr, fun hmem => hmem.elim (fun heq => heq ▸ ?_) id⟩
    exact ExtTreeMap.mem_iff_isSome_getElem?.mpr (by rw [hflow]; rfl)
  flows_le := (size_insert_of_some hflow).trans_le h.flows_le
  pending_le := h.pending_le

/-- A flow that is not there yet finds room. -/
theorem evictOldest (h : Tidy proxy) : Tidy proxy.evictOldest ∧
    (0 < proxy.tcpFlows.size → proxy.evictOldest.tcpFlows.size + 1 = proxy.tcpFlows.size) := by
  unfold TunDnsProxy.evictOldest
  split
  · next hempty =>
    refine ⟨h, fun hpos => ?_⟩
    -- flows without an order would not be listed
    obtain ⟨key, hkey⟩ : ∃ key, key ∈ proxy.tcpFlows := by
      rw [← ExtTreeMap.length_keys] at hpos
      obtain ⟨key, hkey⟩ := List.exists_mem_of_length_pos hpos
      exact ⟨key, ExtTreeMap.mem_keys.mp hkey⟩
    have hlisted := (h.mem_iff key).mpr hkey
    rw [hempty] at hlisted
    cases hlisted
  · next oldest order hcons =>
    have hnodup := h.nodup
    rw [hcons, List.nodup_cons] at hnodup
    obtain ⟨flow, hflow⟩ : ∃ flow, proxy.tcpFlows[oldest]? = some flow := by
      have hmem := (h.mem_iff oldest).mp (by rw [hcons]; exact List.mem_cons_self)
      exact Option.isSome_iff_exists.mp (ExtTreeMap.mem_iff_isSome_getElem?.mp hmem)
    refine ⟨⟨hnodup.2, fun key => ?_, (ExtTreeMap.size_erase_le ..).trans h.flows_le, h.pending_le⟩,
      fun _ => size_erase_of_some hflow⟩
    have hiff := h.mem_iff key
    rw [hcons, List.mem_cons] at hiff
    rw [ExtTreeMap.mem_erase, ← hiff, Ne, Std.compare_eq_iff_eq]
    constructor
    · intro hmem
      exact ⟨fun heq => hnodup.1 (heq ▸ hmem), .inr hmem⟩
    · rintro ⟨hne, heq | hmem⟩
      · exact absurd heq.symm hne
      · exact hmem

theorem insertFlow (h : Tidy proxy) (key : TcpKey) (request : TcpRequest) :
    Tidy (proxy.insertFlow key request) := by
  unfold TunDnsProxy.insertFlow
  -- room for a new key, or the key itself
  obtain ⟨roomy, hroomy, htidy, hroom⟩ : ∃ roomy, (if ¬ proxy.tcpFlows.contains key ∧
      MAX_TCP_FLOWS ≤ proxy.tcpFlows.size then proxy.evictOldest else proxy) = roomy ∧ Tidy roomy ∧
      (roomy.tcpFlows.contains key = true ∨ roomy.tcpFlows.size < MAX_TCP_FLOWS) := by
    refine ⟨_, rfl, ?_⟩
    split
    · next hfull =>
      obtain ⟨htidy, hsize⟩ := h.evictOldest
      have hpos : 0 < proxy.tcpFlows.size := (by decide : 0 < MAX_TCP_FLOWS).trans_le hfull.2
      have hle := h.flows_le
      exact ⟨htidy, .inr (by have := hsize hpos; omega)⟩
    · next hroom =>
      refine ⟨h, ?_⟩
      by_cases hkey : proxy.tcpFlows.contains key = true
      · exact .inl hkey
      · exact .inr (Nat.not_le.mp fun hfull => hroom ⟨hkey, hfull⟩)
  rw [hroomy]
  refine ⟨?_, fun other => ?_, ?_, htidy.pending_le⟩
  · rw [List.nodup_append]
    refine ⟨htidy.nodup.filter _, List.nodup_singleton _, fun a ha b hb heq => ?_⟩
    rw [List.mem_singleton.mp hb] at heq
    exact of_decide_eq_true (List.mem_filter.mp ha).2 heq
  · simp only [List.mem_append, List.mem_filter, List.mem_singleton, htidy.mem_iff,
      ExtTreeMap.mem_insert, Std.compare_eq_iff_eq, decide_eq_true_eq, ne_eq]
    by_cases heq : other = key
    · exact ⟨fun _ => .inl heq.symm, fun _ => .inr heq⟩
    · exact ⟨fun hmem => .inr (hmem.resolve_right heq).1,
        fun hmem => .inl ⟨hmem.resolve_left fun h => heq h.symm, heq⟩⟩
  · show (roomy.tcpFlows.insert key (freshFlow key request)).size ≤ MAX_TCP_FLOWS
    rw [ExtTreeMap.size_insert]
    split
    · exact htidy.flows_le
    · next hkey =>
      rw [ExtTreeMap.contains_iff_mem] at hroom
      have := hroom.resolve_left hkey
      omega

theorem inspect (h : Tidy proxy) (packet : Bytes) : Tidy (proxy.inspect packet).2 := by
  have hinspected := inspected proxy packet
  generalize proxy.inspect packet = outcome at hinspected
  cases hinspected with
  | oversized | pass | unknown | empty | repeated | outOfOrder => exact h
  | udp => exact h.issue ..
  | reset | closed | overflow => exact h.removeFlow _
  | opened => exact h.insertFlow ..
  | unfinished _ hflow => exact h.setFlow hflow _
  | surplus _ hflow => exact (h.setFlow hflow _).removeFlow _
  | query _ hflow => exact (h.setFlow hflow _).issue ..

theorem take (h : Tidy proxy) (token : Nat) : Tidy (proxy.take token) :=
  ⟨h.nodup, h.mem_iff, h.flows_le, (ExtTreeMap.size_erase_le ..).trans h.pending_le⟩

theorem complete (h : Tidy proxy) (token : Nat) (response : Bytes) :
    Tidy (proxy.complete token response).2 := by
  have hcompleted := completed proxy token response
  generalize proxy.complete token response = outcome at hcompleted
  cases hcompleted with
  | invalid | unknown => exact h
  | udp | dropped => exact h.take token
  | tcp _ _ hflow => exact (h.take token).setFlow hflow _

theorem step (h : Tidy proxy) (op : TunOp) : Tidy (proxy.step op) := by
  cases op with
  | inspect packet => exact h.inspect packet
  | complete token response => exact h.complete token response

theorem after (h : Tidy proxy) (ops : List TunOp) : Tidy (proxy.after ops) :=
  exec_invariant h (fun _ op h => h.step op) ops

end Tidy

end Peerward.Android
