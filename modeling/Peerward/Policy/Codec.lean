import Peerward.Lib.Decoder
import Peerward.Policy.Document

/-!
# The canonical policy document

`encode_policy_document` writes a policy as one versioned byte string and `decode_policy_document`
reads it back; the signed bundle a Peer installs carries these bytes. The encoder returns the bytes
it appends instead of appending them.
-/

namespace Peerward.IdentityPolicy

open Std Peerward.Lib Peerward.Net Peerward.Types

def MAX_LABELS : Nat := 64
def MAX_POLICY_RULES : Nat := 1024
def MAX_SELECTOR_PEERS : Nat := 1024
def MAX_SELECTOR_CIDRS : Nat := 256
def MAX_PORT_SPANS : Nat := 256

/-- `peerward/policy-document/v2` and a zero byte. -/
def POLICY_DOCUMENT_DOMAIN : Bytes :=
  [0x70, 0x65, 0x65, 0x72, 0x77, 0x61, 0x72, 0x64, 0x2f, 0x70, 0x6f, 0x6c, 0x69, 0x63, 0x79, 0x2d,
    0x64, 0x6f, 0x63, 0x75, 0x6d, 0x65, 0x6e, 0x74, 0x2f, 0x76, 0x32, 0x00]

/-! ## Encoding

The loops of the source, with their limits checked as they go. Host bits of a network are dropped on the
way.
-/

def actionTag : Action → UInt8
  | .allow => 1
  | .deny => 2

def protocolTag : PolicyProtocol → UInt8
  | .any => 0
  | .tcp => 6
  | .udp => 17
  | .icmp => 1

/-- `return Err(InvalidEncoding)` under a condition. -/
def rejectIf (bad : Bool) : Except PolicyError Unit :=
  if bad then .error .invalidEncoding else .ok ()

def putU32 (value : Nat) : Except PolicyError Bytes :=
  if value < 2 ^ 32 then .ok (toBE 4 value) else .error .invalidEncoding

def putText (value : Text) : Except PolicyError Bytes := do
  let length ← putU32 value.bytes.length
  return length ++ value.bytes

/-- The body of the label loop of `encode_selector`. -/
def putLabel (label : Text × Text) : Except PolicyError Bytes := do
  rejectIf label.1.bytes.isEmpty
  let key ← putText label.1
  let value ← putText label.2
  return key ++ value

/-- The body of the network loop: host bits are not written. -/
def putNetwork : IpNet → Bytes
  | .v4 network => 4 :: (toBE 4 network.network.toNat ++ [UInt8.ofNat network.prefixLen])
  | .v6 network => 6 :: (toBE 16 network.network.toNat ++ [UInt8.ofNat network.prefixLen])

/-- The limits `encode_selector` and `decode_selector` put on one label. -/
def labelFits (key value : Text) : Bool :=
  !(key.bytes.isEmpty || key.bytes.length > 64 || value.bytes.isEmpty || value.bytes.length > 256)

def encodeSelector (selector : Selector) : Except PolicyError Bytes := do
  rejectIf (selector.peerIds.size > MAX_SELECTOR_PEERS || selector.labels.size > MAX_LABELS
    || selector.cidrs.length > MAX_SELECTOR_CIDRS
    || selector.labels.toList.any (fun label => !labelFits label.1 label.2))
  let peerCount ← putU32 selector.peerIds.size
  let labelCount ← putU32 selector.labels.size
  let labels ← selector.labels.toList.mapM putLabel
  let cidrCount ← putU32 selector.cidrs.length
  return peerCount ++ selector.peerIds.toList.flatMap Id.asBytes ++ labelCount ++ labels.flatten
    ++ cidrCount ++ selector.cidrs.flatMap putNetwork

def putPorts (ports : PortRange) : Bytes := toBE 2 ports.first ++ toBE 2 ports.last

/-- Ports make no sense for the rule's protocol. -/
def Rule.misplacedPorts (rule : Rule) : Bool :=
  match rule.protocol with
  | .any | .icmp => !rule.destinationPorts.isEmpty
  | .tcp | .udp => false

/-- The body of the rule loop of `encode_policy_document`. -/
def encodeRule (rule : Rule) : Except PolicyError Bytes := do
  rejectIf rule.misplacedPorts
  let source ← encodeSelector rule.source
  let destination ← encodeSelector rule.destination
  rejectIf (rule.destinationPorts.length > MAX_PORT_SPANS)
  let portCount ← putU32 rule.destinationPorts.length
  return rule.id.asBytes ++ toBE 4 rule.priority.toNat
    ++ [if rule.enabled then 1 else 0, if rule.log then 1 else 0, actionTag rule.action]
    ++ source ++ destination ++ [protocolTag rule.protocol] ++ portCount
    ++ rule.destinationPorts.flatMap putPorts

/-- The rule loop of `encode_policy_document`, with the identifiers seen so far. -/
def encodeRules (ids : ExtTreeSet RuleId) : List Rule → Except PolicyError Bytes
  | [] => .ok []
  | rule :: rules => do
    rejectIf (ids.contains rule.id)
    let bytes ← encodeRule rule
    let rest ← encodeRules (ids.insert rule.id) rules
    return bytes ++ rest

/-- Encodes a policy as one canonical, versioned binary document. -/
def encodePolicyDocument (policy : Policy) : Except PolicyError Bytes := do
  rejectIf (policy.rules.length > MAX_POLICY_RULES)
  let count ← putU32 policy.rules.length
  let rules ← encodeRules ∅ policy.rules
  return POLICY_DOCUMENT_DOMAIN ++ [actionTag policy.default] ++ count ++ rules

/-! ## Decoding

Field by field, in the order of the encoder. At the end the rules are sorted, and the whole is encoded
again.
-/

abbrev PolicyDecoder := Decoder PolicyError

namespace PolicyDecoder

def take (length : Nat) : PolicyDecoder Bytes := Decoder.take .invalidEncoding length
def byte : PolicyDecoder UInt8 := Decoder.byte .invalidEncoding
def boolean : PolicyDecoder Bool := Decoder.boolean .invalidEncoding
def number (width : Nat) : PolicyDecoder Nat := Decoder.number .invalidEncoding width
def count : PolicyDecoder Nat := Decoder.count .invalidEncoding
def reject (bad : Bool) : PolicyDecoder Unit := Decoder.reject .invalidEncoding bad

/-- `.ok_or(InvalidEncoding)`. -/
def okOr {α : Type} : Option α → PolicyDecoder α
  | some a => pure a
  | none => throw .invalidEncoding

/-- `from_uuid(Uuid::from_bytes(..))`. -/
def identifier : PolicyDecoder Id := do
  let bytes ← take 16
  okOr (Id.fromUuid (BitVec.ofNat 128 (ofBE bytes)))

def text : PolicyDecoder Text := do
  let length ← count
  let bytes ← take length
  okOr (Text.fromUtf8 bytes)

/-- `count()` followed by the check of a limit. -/
def limited (limit : Nat) : PolicyDecoder Nat := do
  let n ← count
  reject (n > limit)
  return n

end PolicyDecoder

open PolicyDecoder

def decodeAction (tag : UInt8) : PolicyDecoder Action :=
  if tag = 1 then pure .allow
  else if tag = 2 then pure .deny
  else throw .invalidEncoding

def decodeProtocol (tag : UInt8) : PolicyDecoder PolicyProtocol :=
  if tag = 0 then pure .any
  else if tag = 6 then pure .tcp
  else if tag = 17 then pure .udp
  else if tag = 1 then pure .icmp
  else throw .invalidEncoding

/-- The body of the Peer loop of `decode_selector`. -/
def getPeer (peerIds : ExtTreeSet PeerId) : PolicyDecoder (ExtTreeSet PeerId) := do
  let peer ← identifier
  reject (peerIds.contains peer)
  return peerIds.insert peer

/-- The body of the label loop. -/
def getLabel (labels : ExtTreeMap Text Text) : PolicyDecoder (ExtTreeMap Text Text) := do
  let key ← text
  let value ← text
  reject (!labelFits key value || labels.contains key)
  return labels.insert key value

/-- The body of the network loop. -/
def getNetwork : PolicyDecoder IpNet := do
  let family ← byte
  if family = 4 then
    let octets ← take 4
    let prefixLen ← byte
    okOr ((Prefix.new (BitVec.ofNat 32 (ofBE octets)) prefixLen.toNat).map .v4)
  else if family = 6 then
    let octets ← take 16
    let prefixLen ← byte
    okOr ((Prefix.new (BitVec.ofNat 128 (ofBE octets)) prefixLen.toNat).map .v6)
  else throw .invalidEncoding

/-- The fields of a selector as they stand in the document. -/
def selectorFields : PolicyDecoder Selector := do
  let peerCount ← limited MAX_SELECTOR_PEERS
  let peerIds ← Decoder.loop getPeer peerCount ∅
  let labelCount ← limited MAX_LABELS
  let labels ← Decoder.loop getLabel labelCount ∅
  let cidrCount ← limited MAX_SELECTOR_CIDRS
  let cidrs ← Decoder.loop (fun cidrs => (cidrs ++ [·]) <$> getNetwork) cidrCount []
  return { peerIds, labels, cidrs }

def decodeSelector : PolicyDecoder Selector := do
  let fields ← selectorFields
  return Selector.new fields.peerIds fields.labels fields.cidrs

/-- `PortRange::new` on two ports. -/
def getPorts : PolicyDecoder PortRange := do
  let first ← number 2
  let last ← number 2
  match PortRange.new first last with
  | .ok range => return range
  | .error err => throw err

/-- The body of the rule loop of `decode_policy_document`, for a decoder of selectors. -/
def decodeRule (selector : PolicyDecoder Selector) : PolicyDecoder Rule := do
  let id ← identifier
  let priority ← number 4
  let enabled ← boolean
  let log ← boolean
  let action ← decodeAction (← byte)
  let source ← selector
  let destination ← selector
  let protocol ← decodeProtocol (← byte)
  let rangeCount ← limited MAX_PORT_SPANS
  let destinationPorts ← Decoder.loop (fun ports => (ports ++ [·]) <$> getPorts) rangeCount []
  return {
    id, priority := UInt32.ofNat priority, enabled, log, action, source, destination, protocol
    destinationPorts }

/-- The default action and the rules of a document. -/
def decodeBody (selector : PolicyDecoder Selector) : PolicyDecoder (Action × List Rule) := do
  let default ← decodeAction (← byte)
  let count ← limited MAX_POLICY_RULES
  let rules ← Decoder.loop (fun rules => (rules ++ [·]) <$> decodeRule selector) count []
  return (default, rules)

/-- `slice::strip_prefix`. -/
def stripPrefix (lead bytes : Bytes) : Option Bytes :=
  if bytes.take lead.length = lead then some (bytes.drop lead.length) else none

/-- Decodes a canonical policy document and binds it to its outer revision. -/
def decodePolicyDocument (revision : Nat) (bytes : Bytes) : Except PolicyError Policy := do
  let body ← (stripPrefix POLICY_DOCUMENT_DOMAIN bytes).elim (.error .invalidEncoding) .ok
  let ((default, rules), rest) ← (decodeBody decodeSelector).run body
  rejectIf (rest ≠ [])
  let policy := Policy.new revision default rules
  let encoded ← encodePolicyDocument policy
  rejectIf (encoded ≠ bytes)
  return policy

end Peerward.IdentityPolicy
