import Peerward.Android.TunWire
import Peerward.Lib.Ordered

/-!
# The DNS interceptor of the Android TUN

The proxy answers for the virtual DNS gateways: it hands whole queries to the platform under a token, and
turns the answer to a token into packets. A TCP connection is known by its addresses and the client's
port; a query that waits for its answer remembers that key and nothing else of the connection.
-/

namespace Peerward.Android

open Std Peerward.Lib

def MAX_TCP_FLOWS : Nat := 128
def MAX_PENDING_QUERIES : Nat := 128
def MAX_TCP_DNS_FRAME : Nat := 65537
def MAX_DNS_MESSAGE : Nat := 65535

inductive MobileError where
  | invalidInput
  | invalidState
  deriving DecidableEq

inductive TunDnsTransport where
  | udp
  | tcp
  deriving DecidableEq

inductive TunDnsDecision where
  | pass
  | replies (packets : List Bytes)
  | resolve (token : Nat) (transport : TunDnsTransport) (source query : Bytes)
  deriving DecidableEq

structure TcpKey where
  source : Bytes
  destination : Bytes
  sourcePort : Nat
  deriving DecidableEq

namespace TcpKey

def cmp : TcpKey → TcpKey → Ordering :=
  compareLex (compareOn source) <| compareLex (compareOn destination) (compareOn sourcePort)

instance : Ord TcpKey := ⟨cmp⟩

instance : TransOrd TcpKey := inferInstanceAs (TransCmp (compareLex _ _))

instance : LawfulEqOrd TcpKey where
  eq_of_compare := by
    intro a b h
    replace h : cmp a b = .eq := h
    simp only [cmp, compareLex_eq_eq, compareOn] at h
    obtain ⟨h₁, h₂, h₃⟩ := h
    cases a
    cases b
    congr
    · exact LawfulEqOrd.eq_of_compare h₁
    · exact LawfulEqOrd.eq_of_compare h₂
    · exact LawfulEqOrd.eq_of_compare h₃

end TcpKey

structure TcpFlow where
  clientNext : BitVec 32
  serverNext : BitVec 32
  input : Bytes
  lastResponse : Option Bytes
  responseStart : Option (BitVec 32)
  deriving DecidableEq

inductive PendingQuery where
  | udp (request : UdpRequest)
  | tcp (key : TcpKey) (request : TcpRequest) (query : Bytes)
  deriving DecidableEq

structure TunDnsProxy where
  servers : List Bytes
  mtu : Nat
  tcpFlows : ExtTreeMap TcpKey TcpFlow := ∅
  flowOrder : List TcpKey := []
  pending : ExtTreeMap Nat PendingQuery := ∅
  nextToken : Nat := 1

/-- `initial_sequence`. -/
def initialSequence (key : TcpKey) : BitVec 32 :=
  (key.source ++ key.destination).foldl
    (fun hash byte => (hash * 16777619#32) ^^^ BitVec.ofNat 32 byte.toNat)
    (BitVec.ofNat 32 key.sourcePort)

/-- The packets of a response from `start` on. -/
def segmentTcpResponse (mtu : Nat) (request : TcpRequest) (flow : TcpFlow) (framed : Bytes)
    (start : BitVec 32) : List Bytes :=
  let maximum := max (mtu - (ipHeaderLength request.version + TCP_HEADER)) 1
  let pieces := chunks framed maximum
  pieces.mapIdx fun index payload =>
    buildTcpReply request (start + u32OrMax (index * maximum)) flow.clientNext
      (TCP_ACK ||| if index + 1 = pieces.length then TCP_PSH else 0) payload

def freshFlow (key : TcpKey) (request : TcpRequest) : TcpFlow where
  clientNext := request.sequence + 1
  serverNext := initialSequence key + 1
  input := []
  lastResponse := none
  responseStart := none

def acknowledge (request : TcpRequest) (flow : TcpFlow) : Bytes :=
  buildTcpReply request flow.serverNext flow.clientNext TCP_ACK []

/-- The flow with the next bytes of its stream. -/
def TcpFlow.extend (flow : TcpFlow) (payload : Bytes) : TcpFlow :=
  { flow with
    input := flow.input ++ payload
    clientNext := flow.clientNext + u32OrMax payload.length }

def TcpRequest.key (request : TcpRequest) : TcpKey where
  source := request.source
  destination := request.destination
  sourcePort := request.sourcePort

/-- What is sent for a TCP answer, behind its length. -/
def tcpAnswer (query response : Bytes) : Bytes :=
  let dns := if response = [] then errorReply query 2 false else response
  toBE 2 (u16OrMax dns.length) ++ dns

/-- The flow behind a response. -/
def TcpFlow.answered (flow : TcpFlow) (framed : Bytes) : TcpFlow :=
  { flow with
    lastResponse := some framed
    responseStart := some flow.serverNext
    serverNext := flow.serverNext + u32OrMax framed.length }

namespace TunDnsProxy

def new (servers : List Bytes) (mtu : Nat) : Except MobileError TunDnsProxy :=
  if servers = [] ∨ 8 < servers.length ∨ mtu < 576 ∨ 0xffff < mtu
      ∨ servers.any (fun address => address.length ≠ 4 && address.length ≠ 16) then
    .error .invalidInput
  else .ok { servers := (servers.mergeSort fun a b => (compare a b).isLE).eraseReps, mtu }

variable (proxy : TunDnsProxy)

def isDnsTarget (destination : Bytes) (port : Nat) : Bool :=
  port = 53 && proxy.servers.any (· = destination)

def issue (query : PendingQuery) (transport : TunDnsTransport) (source message : Bytes) :
    Except MobileError TunDnsDecision × TunDnsProxy :=
  if MAX_PENDING_QUERIES ≤ proxy.pending.size ∨ MAX_DNS_MESSAGE < message.length then
    (.error .invalidState, proxy)
  else
    let token := proxy.nextToken
    -- the token after the largest `u64` is one
    let next := if token + 1 < 2 ^ 64 then token + 1 else 1
    (.ok (.resolve token transport source message),
      { proxy with nextToken := next, pending := proxy.pending.insert token query })

def removeFlow (key : TcpKey) : TunDnsProxy :=
  { proxy with
    tcpFlows := proxy.tcpFlows.erase key
    flowOrder := proxy.flowOrder.filter (· ≠ key) }

/-- The oldest flow makes room for a new one. -/
def evictOldest : TunDnsProxy :=
  match proxy.flowOrder with
  | [] => proxy
  | oldest :: order => { proxy with tcpFlows := proxy.tcpFlows.erase oldest, flowOrder := order }

def insertFlow (key : TcpKey) (request : TcpRequest) : TunDnsProxy :=
  let proxy := if ¬ proxy.tcpFlows.contains key ∧ MAX_TCP_FLOWS ≤ proxy.tcpFlows.size then
    proxy.evictOldest else proxy
  { proxy with
    flowOrder := proxy.flowOrder.filter (· ≠ key) ++ [key]
    tcpFlows := proxy.tcpFlows.insert key (freshFlow key request) }

def setFlow (key : TcpKey) (flow : TcpFlow) : TunDnsProxy :=
  { proxy with tcpFlows := proxy.tcpFlows.insert key flow }

/-- A data segment, or a FIN, of a known flow. -/
def inspectFlow (key : TcpKey) (flow : TcpFlow) (request : TcpRequest) :
    Except MobileError TunDnsDecision × TunDnsProxy :=
  if request.flags &&& TCP_FIN ≠ 0 then
    (.ok (.replies [buildTcpReply request flow.serverNext (request.sequence + 1) (TCP_FIN ||| TCP_ACK) []]),
      proxy.removeFlow key)
  else if request.payload = [] then (.ok (.replies []), proxy)
  else if request.sequence ≠ flow.clientNext then
    match flow.lastResponse with
    | some last => (.ok (.replies (segmentTcpResponse proxy.mtu request flow last
        (flow.responseStart.getD flow.serverNext))), proxy)
    | none => (.ok (.replies [acknowledge request flow]), proxy)
  else if MAX_TCP_DNS_FRAME < flow.input.length + request.payload.length then
    (.ok (.replies [buildTcpReset request]), proxy.removeFlow key)
  else
    let flow := flow.extend request.payload
    let extended := proxy.setFlow key flow
    let queryLength := u16At flow.input 0
    if flow.input.length < 2 then (.ok (.replies [acknowledge request flow]), extended)
    else if ¬ (12 ≤ queryLength ∧ queryLength ≤ MAX_DNS_MESSAGE)
        ∨ flow.input.length < queryLength + 2 then
      (.ok (.replies [acknowledge request flow]), extended)
    else if flow.input.length ≠ queryLength + 2 then
      (.ok (.replies [buildTcpReset request]), extended.removeFlow key)
    else
      let query := flow.input.drop 2
      extended.issue (.tcp key request query) .tcp request.source query

def inspectTcp (packet : Bytes) : Except MobileError TunDnsDecision × TunDnsProxy :=
  match parseTcp packet with
  | none => (.ok .pass, proxy)
  | some request =>
    if !proxy.isDnsTarget request.destination request.destinationPort then (.ok .pass, proxy)
    else
      let key := request.key
      if request.flags &&& TCP_RST ≠ 0 then (.ok (.replies []), proxy.removeFlow key)
      else if request.flags &&& TCP_SYN ≠ 0 ∧ request.flags &&& TCP_ACK = 0 then
        let flow := freshFlow key request
        (.ok (.replies [buildTcpReply request (flow.serverNext - 1) flow.clientNext (TCP_SYN ||| TCP_ACK) []]),
          proxy.insertFlow key request)
      else
        match proxy.tcpFlows[key]? with
        | none => (.ok (.replies [buildTcpReset request]), proxy)
        | some flow => proxy.inspectFlow key flow request

/-- The protocol field of a packet. -/
def protocolOf (packet : Bytes) : Option UInt8 :=
  if packet = [] then none
  else if byteAt packet 0 >>> 4 = 4 then packet[9]?
  else if byteAt packet 0 >>> 4 = 6 then packet[6]?
  else none

/-- Consumes one TUN packet. -/
def inspect (packet : Bytes) : Except MobileError TunDnsDecision × TunDnsProxy :=
  if 0xffff < packet.length then (.error .invalidInput, proxy)
  else if protocolOf packet = some TCP_PROTOCOL then proxy.inspectTcp packet
  else
    match parseUdp packet with
    | none => (.ok .pass, proxy)
    | some request =>
      if !proxy.isDnsTarget request.destination request.destinationPort then (.ok .pass, proxy)
      else proxy.issue (.udp request) .udp request.source request.payload

/-- What is sent for a UDP answer. -/
def udpAnswer (request : UdpRequest) (response : Bytes) : Bytes :=
  if response = [] then errorReply request.payload 2 false
  else if proxy.mtu < response.length + request.ipHeaderLength + UDP_HEADER then
    errorReply request.payload 0 true
  else response

/-- Completes one query. -/
def complete (token : Nat) (response : Bytes) : Except MobileError (List Bytes) × TunDnsProxy :=
  if token = 0 ∨ MAX_DNS_MESSAGE < response.length then (.error .invalidInput, proxy)
  else
    match proxy.pending[token]? with
    | none => (.error .invalidState, proxy)
    | some query =>
      let taken := { proxy with pending := proxy.pending.erase token }
      match query with
      | .udp request => (.ok [buildUdpReply request (proxy.udpAnswer request response)], taken)
      | .tcp key request query =>
        match proxy.tcpFlows[key]? with
        | none => (.error .invalidState, taken)
        | some flow =>
          let framed := tcpAnswer query response
          (.ok (segmentTcpResponse proxy.mtu request flow framed flow.serverNext),
            taken.setFlow key (flow.answered framed))

end TunDnsProxy

end Peerward.Android
