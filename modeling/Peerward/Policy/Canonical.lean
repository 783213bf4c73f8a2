import Peerward.Policy.Codec

/-!
# Reading a document back

The encoder is characterised by its limits and the bytes it writes (`…_eq_ok`), the decoder by what
it reads from those bytes (`…_reads`). Only one thing does not survive the trip: the host bits of
networks, which `encode_selector` does not write.
-/

namespace Peerward.IdentityPolicy

open Std Peerward.Lib Peerward.Net Peerward.Types
open Decoder (Reads length_le_flatMap)
open PolicyDecoder

/-- The selector without the host bits of its networks. -/
def Selector.trunc (selector : Selector) : Selector :=
  { selector with cidrs := selector.cidrs.map IpNet.trunc }

/-- The selector `decode_selector` builds from what `encode_selector` writes. -/
def Selector.reread (selector : Selector) : Selector :=
  Selector.new selector.peerIds selector.labels (selector.cidrs.map IpNet.trunc)

/-- A rule with both selectors replaced. -/
def Rule.mapSelectors (f : Selector → Selector) (rule : Rule) : Rule :=
  { rule with source := f rule.source, destination := f rule.destination }

/-! ## What the encoder writes

The limits of the encoder, gathered per part, so that what it accepts is a condition and what it writes is
a concatenation.
-/

theorem rejectIf_eq_ok {bad : Bool} {u : Unit} : rejectIf bad = .ok u ↔ bad = false := by
  cases bad <;> simp [rejectIf]

theorem putU32_eq_ok {value : Nat} {bytes : Bytes} :
    putU32 value = .ok bytes ↔ value < 2 ^ 32 ∧ toBE 4 value = bytes := by
  unfold putU32
  split <;> simp_all

def textBytes (value : Text) : Bytes := toBE 4 value.bytes.length ++ value.bytes

def labelBytes (label : Text × Text) : Bytes := textBytes label.1 ++ textBytes label.2

/-- The limits of `encode_selector`. -/
structure Selector.Fits (selector : Selector) : Prop where
  peerIds : selector.peerIds.size ≤ MAX_SELECTOR_PEERS
  labels : selector.labels.size ≤ MAX_LABELS
  cidrs : selector.cidrs.length ≤ MAX_SELECTOR_CIDRS
  label : ∀ label ∈ selector.labels.toList, labelFits label.1 label.2 = true

def selectorBytes (selector : Selector) : Bytes :=
  toBE 4 selector.peerIds.size ++ selector.peerIds.toList.flatMap Id.asBytes
    ++ toBE 4 selector.labels.size ++ selector.labels.toList.flatMap labelBytes
    ++ toBE 4 selector.cidrs.length ++ selector.cidrs.flatMap putNetwork

theorem labelFits_iff {key value : Text} : labelFits key value = true ↔
    key.bytes ≠ [] ∧ key.bytes.length ≤ 64 ∧ value.bytes ≠ [] ∧ value.bytes.length ≤ 256 := by
  simp only [labelFits, Bool.not_eq_true', Bool.or_eq_false_iff, decide_eq_false_iff_not,
    List.isEmpty_eq_false_iff, Nat.not_lt, gt_iff_lt]
  tauto

theorem putLabel_eq {label : Text × Text} (h : labelFits label.1 label.2 = true) :
    putLabel label = .ok (labelBytes label) := by
  obtain ⟨hkey, hkeyLen, -, hvalueLen⟩ := labelFits_iff.mp h
  simp only [putLabel, putText, bind_eq_ok, rejectIf_eq_ok, putU32_eq_ok]
  refine ⟨(), List.isEmpty_eq_false_iff.mpr hkey, textBytes label.1, ?_, textBytes label.2, ?_, rfl⟩
  · exact ⟨_, ⟨by omega, rfl⟩, rfl⟩
  · exact ⟨_, ⟨by omega, rfl⟩, rfl⟩

theorem mapM_putLabel {labels : List (Text × Text)}
    (h : ∀ label ∈ labels, labelFits label.1 label.2 = true) :
    labels.mapM putLabel = .ok (labels.map labelBytes) := by
  induction labels with
  | nil => rfl
  | cons label labels ih =>
      rw [List.mapM_cons, putLabel_eq (h label (by simp)), ih fun l hl => h l (by simp [hl])]
      rfl

theorem selector_limits {selector : Selector} :
    (selector.peerIds.size > MAX_SELECTOR_PEERS || selector.labels.size > MAX_LABELS
      || selector.cidrs.length > MAX_SELECTOR_CIDRS
      || selector.labels.toList.any (fun label => !labelFits label.1 label.2)) = false ↔
      selector.Fits := by
  simp only [Bool.or_eq_false_iff, decide_eq_false_iff_not, List.any_eq_false, Nat.not_lt,
    gt_iff_lt, Bool.not_eq_true, Bool.not_eq_false']
  exact ⟨fun ⟨⟨⟨h₁, h₂⟩, h₃⟩, h₄⟩ => ⟨h₁, h₂, h₃, h₄⟩, fun h => ⟨⟨⟨h.1, h.2⟩, h.3⟩, h.4⟩⟩

/-- The encoder of selectors, with its checks in one place. -/
theorem encodeSelector_eq_ok {selector : Selector} {bytes : Bytes} :
    encodeSelector selector = .ok bytes ↔ selector.Fits ∧ selectorBytes selector = bytes := by
  simp only [encodeSelector, bind_eq_ok, rejectIf_eq_ok, selector_limits, putU32_eq_ok]
  constructor
  · rintro ⟨-, hfits, _, ⟨-, rfl⟩, _, ⟨-, rfl⟩, labels, hlabels, _, ⟨-, rfl⟩, hbytes⟩
    rw [mapM_putLabel hfits.label] at hlabels
    cases hlabels
    refine ⟨hfits, ?_⟩
    rw [← Except.ok.inj hbytes, List.flatten_eq_flatMap, List.flatMap_map]
    rfl
  · rintro ⟨hfits, rfl⟩
    have hpeers := hfits.peerIds
    have hlabels := hfits.labels
    have hcidrs := hfits.cidrs
    unfold MAX_SELECTOR_PEERS at hpeers
    unfold MAX_LABELS at hlabels
    unfold MAX_SELECTOR_CIDRS at hcidrs
    refine ⟨(), hfits, _, ⟨by omega, rfl⟩, _, ⟨by omega, rfl⟩, _, mapM_putLabel hfits.label, _,
      ⟨by omega, rfl⟩, ?_⟩
    rw [List.flatten_eq_flatMap, List.flatMap_map]
    rfl

def ruleBytes (rule : Rule) : Bytes :=
  rule.id.asBytes ++ toBE 4 rule.priority.toNat
    ++ [if rule.enabled then 1 else 0, if rule.log then 1 else 0, actionTag rule.action]
    ++ selectorBytes rule.source ++ selectorBytes rule.destination ++ [protocolTag rule.protocol]
    ++ toBE 4 rule.destinationPorts.length ++ rule.destinationPorts.flatMap putPorts

/-- The limits of the rule loop. -/
structure Rule.Fits (rule : Rule) : Prop where
  ports : rule.misplacedPorts = false
  source : rule.source.Fits
  destination : rule.destination.Fits
  portSpans : rule.destinationPorts.length ≤ MAX_PORT_SPANS

theorem encodeRule_eq_ok {rule : Rule} {bytes : Bytes} :
    encodeRule rule = .ok bytes ↔ rule.Fits ∧ ruleBytes rule = bytes := by
  simp only [encodeRule, bind_eq_ok, rejectIf_eq_ok, encodeSelector_eq_ok, putU32_eq_ok,
    decide_eq_false_iff_not]
  constructor
  · rintro ⟨-, hports, _, ⟨hsource, rfl⟩, _, ⟨hdestination, rfl⟩, -, hspans, _, ⟨-, rfl⟩, hbytes⟩
    exact ⟨⟨hports, hsource, hdestination, by omega⟩, Except.ok.inj hbytes⟩
  · rintro ⟨hfits, rfl⟩
    have hspans := hfits.portSpans
    have hcount : rule.destinationPorts.length < 2 ^ 32 := by
      unfold MAX_PORT_SPANS at hspans
      omega
    exact ⟨(), hfits.ports, _, ⟨hfits.source, rfl⟩, _, ⟨hfits.destination, rfl⟩, (),
      by omega, _, ⟨hcount, rfl⟩, rfl⟩

theorem contains_eq_false_iff {ids : ExtTreeSet RuleId} {id : RuleId} :
    ids.contains id = false ↔ id ∉ ids := by
  rw [← Bool.not_eq_true, ExtTreeSet.contains_iff_mem]

/-- The rule loop: every rule fits and no identifier occurs twice. -/
theorem encodeRules_eq_ok {ids : ExtTreeSet RuleId} {rules : List Rule} {bytes : Bytes} :
    encodeRules ids rules = .ok bytes ↔
      (∀ rule ∈ rules, rule.Fits) ∧ (∀ rule ∈ rules, rule.id ∉ ids) ∧
        (rules.map Rule.id).Nodup ∧ rules.flatMap ruleBytes = bytes := by
  induction rules generalizing ids bytes with
  | nil => simp [encodeRules]
  | cons rule rules ih =>
      simp only [encodeRules, bind_eq_ok, rejectIf_eq_ok, encodeRule_eq_ok, ih,
        ExtTreeSet.mem_insert, LawfulEqOrd.compare_eq_iff_eq, List.forall_mem_cons, List.map_cons,
        List.nodup_cons, List.mem_map, List.flatMap_cons, contains_eq_false_iff]
      constructor
      · rintro ⟨-, hnew, _, ⟨hfits, rfl⟩, _, ⟨hrest, hids, hnodup, rfl⟩, hbytes⟩
        refine ⟨⟨hfits, hrest⟩, ⟨hnew, fun r hr h => hids r hr (.inr h)⟩, ⟨?_, hnodup⟩,
          Except.ok.inj hbytes⟩
        rintro ⟨r, hr, heq⟩
        exact hids r hr (.inl heq.symm)
      · rintro ⟨⟨hfits, hrest⟩, ⟨hnew, hids⟩, ⟨hfresh, hnodup⟩, rfl⟩
        refine ⟨(), hnew, _, ⟨hfits, rfl⟩, _, ⟨hrest, ?_, hnodup, rfl⟩, rfl⟩
        rintro r hr (heq | hmem)
        · exact hfresh ⟨r, hr, heq.symm⟩
        · exact hids r hr hmem

/-! ## What the decoder reads

Each part is read back in front of anything. The decoder is stricter than its parts: it encodes again what
it has read and compares.
-/

theorem okOr_reads {α : Type} (a : α) : Reads (okOr (some a)) [] a := Reads.pure a

theorem identifier_reads (id : Id) : Reads identifier id.asBytes id := by
  have htake : Reads (take id.asBytes.length) id.asBytes id.asBytes := Reads.take _
  rw [Id.length_asBytes] at htake
  refine htake.bind_nil ?_
  rw [Id.fromUuid_asBytes]
  exact okOr_reads id

theorem text_reads {value : Text} (h : value.bytes.length < 2 ^ 32) :
    Reads text (textBytes value) value := by
  refine Reads.count_bind h le_rfl ?_
  refine (Reads.take value.bytes).bind_nil ?_
  rw [Text.fromUtf8_bytes]
  exact okOr_reads value

theorem decodeAction_reads (action : Action) : Reads (decodeAction (actionTag action)) [] action := by
  cases action <;> exact Reads.pure _

theorem decodeProtocol_reads (protocol : PolicyProtocol) :
    Reads (decodeProtocol (protocolTag protocol)) [] protocol := by
  cases protocol <;> exact Reads.pure _

/-- A count within its limit, in front of that many items. -/
theorem limited_bind {β : Type} {limit n : Nat} {f : Nat → PolicyDecoder β} {bytes : Bytes} {b : β}
    (hlimit : n ≤ limit) (hsmall : limit < 2 ^ 32) (hroom : n ≤ bytes.length)
    (hf : Reads (f n) bytes b) : Reads (limited limit >>= f) (toBE 4 n ++ bytes) b := by
  unfold limited
  rw [bind_assoc]
  refine Reads.count_bind (by omega) hroom ?_
  rw [bind_assoc, pure_bind]
  exact (Reads.reject (by simpa using hlimit)).bind hf

theorem getPeer_reads {peerIds : ExtTreeSet PeerId} {peer : PeerId} (h : peer ∉ peerIds) :
    Reads (getPeer peerIds) peer.asBytes (peerIds.insert peer) := by
  exact (identifier_reads peer).bind_nil
    ((Reads.reject (contains_eq_false_iff.mpr h)).bind_nil (Reads.pure _))

/-- The Peer loop reads a set back. -/
theorem peers_read (peerIds : ExtTreeSet PeerId) :
    Reads (Decoder.loop getPeer peerIds.size ∅) (peerIds.toList.flatMap Id.asBytes) peerIds := by
  have hread : Reads (Decoder.loop getPeer peerIds.toList.length ∅)
      (peerIds.toList.flatMap Id.asBytes) (peerIds.toList.foldl (·.insert ·) ∅) := by
    refine Reads.loop fun before peer after heq => getPeer_reads ?_
    have hdistinct := peerIds.distinct_toList
    rw [heq, List.pairwise_append] at hdistinct
    rw [mem_foldl_insert]
    rintro (h | h)
    · simp at h
    · exact hdistinct.2.2 peer h peer (by simp) ReflCmp.compare_self
  rwa [foldl_insert_toList, ExtTreeSet.length_toList] at hread

theorem getLabel_reads {labels : ExtTreeMap Text Text} {label : Text × Text}
    (hfits : labelFits label.1 label.2 = true) (h : label.1 ∉ labels) :
    Reads (getLabel labels) (labelBytes label) (labels.insert label.1 label.2) := by
  obtain ⟨-, hkey, -, hvalue⟩ := labelFits_iff.mp hfits
  have hnew : labels.contains label.1 = false := by
    rw [← Bool.not_eq_true, ExtTreeMap.contains_iff_mem]
    exact h
  have hreject : Reads (reject (!labelFits label.1 label.2 || labels.contains label.1)) [] () :=
    Reads.reject (by rw [hfits, hnew]; rfl)
  exact (text_reads (by omega)).bind ((text_reads (by omega)).bind_nil
    (hreject.bind_nil (Reads.pure _)))

/-- The label loop reads a map back. -/
theorem labels_read (labels : ExtTreeMap Text Text)
    (hfits : ∀ label ∈ labels.toList, labelFits label.1 label.2 = true) :
    Reads (Decoder.loop getLabel labels.size ∅) (labels.toList.flatMap labelBytes) labels := by
  have hread : Reads (Decoder.loop getLabel labels.toList.length ∅)
      (labels.toList.flatMap labelBytes) (insertEntries ∅ labels.toList) := by
    refine Reads.loop fun before label after heq =>
      getLabel_reads (hfits label (by simp [heq])) ?_
    have hdistinct := labels.distinct_keys_toList
    rw [heq, List.pairwise_append] at hdistinct
    rw [← insertEntries, mem_insertEntries]
    rintro (h | h)
    · simp at h
    · obtain ⟨other, hother, hkey⟩ := List.mem_map.mp h
      exact hdistinct.2.2 other hother label (by simp) (by rw [hkey]; exact ReflCmp.compare_self)
  rwa [insertEntries_toList, ExtTreeMap.length_toList] at hread

/-- An address and a prefix length, at either width. -/
theorem prefix_reads {width octets : Nat} (network : Prefix width) (wrap : Prefix width → IpNet)
    (hwidth : 2 ^ width = 256 ^ octets) (hsmall : width < 256) :
    Reads (take octets >>= fun bytes => byte >>= fun prefixLen =>
        okOr ((Prefix.new (BitVec.ofNat width (ofBE bytes)) prefixLen.toNat).map wrap))
      (toBE octets network.network.toNat ++ [UInt8.ofNat network.prefixLen]) (wrap network.trunc) := by
  have htake : Reads (take (toBE octets network.network.toNat).length)
      (toBE octets network.network.toNat) _ := Reads.take _
  rw [length_toBE] at htake
  have hfits := network.fits
  have haddr : ofBE (toBE octets network.network.toNat) = network.network.toNat := by
    apply ofBE_toBE_of_lt
    rw [← hwidth]
    exact network.network.isLt
  have hlen : (UInt8.ofNat network.prefixLen).toNat = network.prefixLen := by
    simp only [UInt8.toNat_ofNat']
    omega
  have hnew : Prefix.new (BitVec.ofNat width (ofBE (toBE octets network.network.toNat)))
      (UInt8.ofNat network.prefixLen).toNat = some network.trunc := by
    rw [haddr, hlen, Prefix.new, dif_pos hfits, BitVec.ofNat_toNat, BitVec.setWidth_eq]
    rfl
  refine htake.bind ((Reads.byte _).bind_nil ?_)
  rw [hnew]
  exact okOr_reads _

/-- Networks come back without their host bits. -/
theorem getNetwork_reads (network : IpNet) : Reads getNetwork (putNetwork network) network.trunc := by
  unfold getNetwork putNetwork byte
  cases network with
  | v4 network =>
      refine Reads.byte_bind ?_
      rw [if_pos rfl]
      exact prefix_reads network .v4 (by norm_num) (by decide)
  | v6 network =>
      refine Reads.byte_bind ?_
      rw [if_neg (by decide), if_pos rfl]
      exact prefix_reads network .v6 (by norm_num) (by decide)

/-- A selector comes back field by field, in the order its networks were written. -/
theorem selectorFields_reads {selector : Selector} (h : selector.Fits) :
    Reads selectorFields (selectorBytes selector) selector.trunc := by
  have hcidrs : Reads (Decoder.loop (fun cidrs => (cidrs ++ [·]) <$> getNetwork)
      selector.cidrs.length []) (selector.cidrs.flatMap putNetwork) (selector.cidrs.map IpNet.trunc) :=
    Reads.loop_push fun network _ => getNetwork_reads network
  have hpeerRoom : selector.peerIds.size ≤ (selector.peerIds.toList.flatMap Id.asBytes).length := by
    rw [← ExtTreeSet.length_toList]
    refine length_le_flatMap fun id _ hnil => ?_
    have := id.length_asBytes
    simp [hnil] at this
  have hlabelRoom : selector.labels.size ≤ (selector.labels.toList.flatMap labelBytes).length := by
    rw [← ExtTreeMap.length_toList]
    refine length_le_flatMap fun label _ hnil => ?_
    have := congrArg List.length hnil
    simp [labelBytes, textBytes] at this
  have hcidrRoom : selector.cidrs.length ≤ (selector.cidrs.flatMap putNetwork).length := by
    refine length_le_flatMap fun network _ => ?_
    cases network <;> simp [putNetwork]
  unfold selectorFields selectorBytes
  simp only [List.append_assoc]
  refine limited_bind h.peerIds (by decide) ?_ ((peers_read _).bind ?_)
  · simp only [List.length_append]
    omega
  refine limited_bind h.labels (by decide) ?_ ((labels_read _ h.label).bind ?_)
  · simp only [List.length_append]
    omega
  exact limited_bind h.cidrs (by decide) hcidrRoom (hcidrs.bind_nil (Reads.pure _))

/-- `decode_selector` sorts the networks it read. -/
theorem decodeSelector_reads {selector : Selector} (h : selector.Fits) :
    Reads decodeSelector (selectorBytes selector) selector.reread :=
  (selectorFields_reads h).bind_nil (Reads.pure _)

theorem getPorts_reads (ports : PortRange) : Reads getPorts (putPorts ports) ports := by
  obtain ⟨hfirst, hle, hlast⟩ := ports.valid
  refine (Reads.number (by omega)).bind ((Reads.number (by omega)).bind_nil ?_)
  have hnew : PortRange.new ports.first ports.last = .ok ports := dif_pos ports.valid
  rw [hnew]
  exact Reads.pure ports

theorem decodeRule_reads {selector : PolicyDecoder Selector} {f : Selector → Selector}
    (hselector : ∀ s : Selector, s.Fits → Reads selector (selectorBytes s) (f s)) {rule : Rule}
    (h : rule.Fits) : Reads (decodeRule selector) (ruleBytes rule) (rule.mapSelectors f) := by
  have hports : Reads (Decoder.loop (fun ports => (ports ++ [·]) <$> getPorts)
      rule.destinationPorts.length []) (rule.destinationPorts.flatMap putPorts)
      (rule.destinationPorts.map id) :=
    Reads.loop_push fun ports _ => getPorts_reads ports
  rw [List.map_id] at hports
  have hroom : rule.destinationPorts.length ≤ (rule.destinationPorts.flatMap putPorts).length :=
    length_le_flatMap fun ports _ hnil => by simpa [putPorts] using congrArg List.length hnil
  have hpriority : UInt32.ofNat rule.priority.toNat = rule.priority := by simp
  unfold decodeRule ruleBytes
  simp only [List.append_assoc]
  refine (identifier_reads _).bind ((Reads.number rule.priority.toNat_lt).bind ?_)
  refine (Reads.boolean rule.enabled).bind ((Reads.boolean rule.log).bind ?_)
  refine (Reads.byte _).bind ((decodeAction_reads _).bind ?_)
  refine (hselector _ h.source).bind ((hselector _ h.destination).bind ?_)
  refine (Reads.byte _).bind ((decodeProtocol_reads _).bind ?_)
  refine limited_bind h.portSpans (by decide) hroom (hports.bind_nil ?_)
  rw [hpriority]
  exact Reads.pure _

/-! ## Documents

An accepted document is therefore an encoding. In the other direction, whether a policy's own document is
accepted depends on what sorting makes of the networks.
-/

/-- The limits of `encode_policy_document`. -/
structure Encodable (rules : List Rule) : Prop where
  count : rules.length ≤ MAX_POLICY_RULES
  fits : ∀ rule ∈ rules, rule.Fits
  ids : (rules.map Rule.id).Nodup

def bodyBytes (default : Action) (rules : List Rule) : Bytes :=
  [actionTag default] ++ toBE 4 rules.length ++ rules.flatMap ruleBytes

theorem encodePolicyDocument_eq_ok {policy : Policy} {bytes : Bytes} :
    encodePolicyDocument policy = .ok bytes ↔ Encodable policy.rules ∧
      POLICY_DOCUMENT_DOMAIN ++ bodyBytes policy.default policy.rules = bytes := by
  simp only [encodePolicyDocument, bind_eq_ok, rejectIf_eq_ok, putU32_eq_ok, encodeRules_eq_ok,
    decide_eq_false_iff_not]
  constructor
  · rintro ⟨-, hcount, _, ⟨-, rfl⟩, _, ⟨hfits, -, hids, rfl⟩, hbytes⟩
    refine ⟨⟨by omega, hfits, hids⟩, ?_⟩
    rw [← Except.ok.inj hbytes]
    simp only [bodyBytes, List.append_assoc]
  · rintro ⟨⟨hcount, hfits, hids⟩, rfl⟩
    have hsmall : policy.rules.length < 2 ^ 32 := by
      unfold MAX_POLICY_RULES at hcount
      omega
    refine ⟨(), by omega, _, ⟨hsmall, rfl⟩, _, ⟨hfits, by simp, hids, rfl⟩, ?_⟩
    simp only [bodyBytes, List.append_assoc]
    rfl

theorem decodeBody_reads {selector : PolicyDecoder Selector} {f : Selector → Selector}
    (hselector : ∀ s : Selector, s.Fits → Reads selector (selectorBytes s) (f s))
    {rules : List Rule} (h : Encodable rules) (default : Action) :
    Reads (decodeBody selector) (bodyBytes default rules)
      (default, rules.map (Rule.mapSelectors f)) := by
  have hrules : Reads (Decoder.loop (fun rules => (rules ++ [·]) <$> decodeRule selector)
      rules.length []) (rules.flatMap ruleBytes) (rules.map (Rule.mapSelectors f)) :=
    Reads.loop_push fun rule hrule => decodeRule_reads hselector (h.fits rule hrule)
  have hroom : rules.length ≤ (rules.flatMap ruleBytes).length := by
    refine length_le_flatMap fun rule _ hnil => ?_
    have := congrArg List.length hnil
    simp [ruleBytes] at this
  unfold decodeBody bodyBytes
  simp only [List.append_assoc]
  refine (Reads.byte _).bind ((decodeAction_reads _).bind ?_)
  exact limited_bind h.count (by decide) hroom (hrules.bind_nil (Reads.pure _))

/-- An accepted document is the encoding of what it decodes to. -/
theorem encode_of_decode {revision : Nat} {bytes : Bytes} {policy : Policy}
    (h : decodePolicyDocument revision bytes = .ok policy) :
    encodePolicyDocument policy = .ok bytes := by
  simp only [decodePolicyDocument, bind_eq_ok, rejectIf_eq_ok] at h
  obtain ⟨_, -, _, -, _, -, encoded, hencoded, _, hsame, hpolicy⟩ := h
  simp only [ne_eq, decide_not, Bool.not_eq_false', decide_eq_true_eq] at hsame
  cases hpolicy
  rw [hencoded, hsame]

/-- What decoding an encoded policy comes down to: its rules are read back, sorted, and must encode
to the same bytes. -/
theorem decode_of_encode {revision : Nat} {policy decoded : Policy} {bytes : Bytes}
    (h : encodePolicyDocument policy = .ok bytes) :
    decodePolicyDocument revision bytes = .ok decoded ↔
      Policy.new revision policy.default (policy.rules.map (Rule.mapSelectors Selector.reread)) =
        decoded ∧ encodePolicyDocument decoded = .ok bytes := by
  obtain ⟨hencodable, rfl⟩ := encodePolicyDocument_eq_ok.mp h
  have hbody := decodeBody_reads (fun s hs => decodeSelector_reads hs) hencodable policy.default []
  rw [List.append_nil] at hbody
  have hstrip : stripPrefix POLICY_DOCUMENT_DOMAIN
      (POLICY_DOCUMENT_DOMAIN ++ bodyBytes policy.default policy.rules) =
        some (bodyBytes policy.default policy.rules) := by
    rw [stripPrefix, List.take_left, if_pos rfl, List.drop_left]
  constructor
  · intro hdecode
    refine ⟨?_, encode_of_decode hdecode⟩
    simp only [decodePolicyDocument, hstrip, bind_eq_ok] at hdecode
    obtain ⟨_, hbody', _, hrun, _, -, _, -, _, -, hpolicy⟩ := hdecode
    cases hbody'
    rw [hbody] at hrun
    cases hrun
    exact Except.ok.inj hpolicy
  · rintro ⟨rfl, hencode⟩
    simp only [decodePolicyDocument, hstrip, bind_eq_ok, rejectIf_eq_ok]
    exact ⟨_, rfl, _, hbody, (), by simp, _, hencode, (), by simp, rfl⟩

end Peerward.IdentityPolicy
