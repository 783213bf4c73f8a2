import Peerward.Policy.Canonical

/-!
# Which policies survive their own document

`Policy::new` sorts and deduplicates networks with their host bits, the encoder drops the bits, and
the decoder sorts, deduplicates and encodes again before it compares bytes. A policy therefore comes
back exactly when dropping host bits leaves every list of networks in strictly ascending order;
otherwise its own document is rejected.
-/

namespace Peerward.IdentityPolicy

open Std Peerward.Lib Peerward.Net Peerward.Types
open Decoder (Reads)

/-- Dropping host bits keeps the canonical list of networks strictly ascending. -/
def Selector.Portable (selector : Selector) : Prop :=
  Ascending ((sortDedup selector.cidrs).map IpNet.trunc)

instance (selector : Selector) : Decidable selector.Portable :=
  inferInstanceAs (Decidable (Ascending _))

/-- Both policies decide every initiation alike. -/
def Policy.Agrees (policy other : Policy) : Prop :=
  ∀ source destination protocol destinationPort,
    policy.decideInitiation source destination protocol destinationPort =
      other.decideInitiation source destination protocol destinationPort

/-! ## Dropping host bits

Membership in a network does not look at host bits, so dropping them changes no decision; but two networks
may become one.
-/

theorem putNetwork_trunc (network : IpNet) : putNetwork network.trunc = putNetwork network := by
  cases network <;> simp [putNetwork, IpNet.trunc]

theorem selectorBytes_trunc (selector : Selector) :
    selectorBytes selector.trunc = selectorBytes selector := by
  simp only [selectorBytes, Selector.trunc, List.length_map, List.flatMap_map, putNetwork_trunc]

theorem Selector.Fits.trunc {selector : Selector} (h : selector.Fits) : selector.trunc.Fits where
  peerIds := h.peerIds
  labels := h.labels
  cidrs := by
    rw [Selector.trunc, List.length_map]
    exact h.cidrs
  label := h.label

theorem ruleBytes_trunc (rule : Rule) :
    ruleBytes (rule.mapSelectors Selector.trunc) = ruleBytes rule := by
  simp only [ruleBytes, Rule.mapSelectors, selectorBytes_trunc]
  rfl

theorem Encodable.trunc {rules : List Rule} (h : Encodable rules) :
    Encodable (rules.map (Rule.mapSelectors Selector.trunc)) where
  count := by
    rw [List.length_map]
    exact h.count
  fits := by
    intro rule' hrule'
    obtain ⟨rule, hrule, rfl⟩ := List.mem_map.mp hrule'
    have hfits := h.fits rule hrule
    exact ⟨hfits.ports, hfits.source.trunc, hfits.destination.trunc, hfits.portSpans⟩
  ids := by
    rw [List.map_map]
    exact h.ids

theorem bodyBytes_trunc (default : Action) (rules : List Rule) :
    bodyBytes default (rules.map (Rule.mapSelectors Selector.trunc)) = bodyBytes default rules := by
  simp only [bodyBytes, List.length_map, List.flatMap_map, ruleBytes_trunc]

/-- Membership does not see host bits. -/
theorem trunc_matchesPeer (selector : Selector) (peer : PeerDescriptor) :
    selector.trunc.matchesPeer peer = selector.matchesPeer peer := by
  simp only [Selector.matchesPeer, Selector.trunc, List.isEmpty_map, List.any_map]
  congr 3
  funext network
  exact IpNet.trunc_contains network peer.address

theorem trunc_agrees {policy other : Policy} (hdefault : other.default = policy.default)
    (hrules : other.rules = policy.rules.map (Rule.mapSelectors Selector.trunc)) :
    other.Agrees policy := by
  intro source destination protocol destinationPort
  have hmatch : ∀ rule : Rule, (rule.mapSelectors Selector.trunc).matchesInitiation source destination
      protocol destinationPort =
        rule.matchesInitiation source destination protocol destinationPort := by
    intro rule
    simp only [Rule.matchesInitiation, Rule.mapSelectors, trunc_matchesPeer]
    rfl
  simp only [Policy.decideInitiation, hdefault, hrules, List.find?_map, Function.comp_def, hmatch]
  cases policy.rules.find? _ <;> rfl

/-! ## Sorting what was read

The decoder sorts what it has read and does not deduplicate it, while the encoder wrote what was
deduplicated with the host bits still on. The two agree unless networks of one selector became equal.
-/

theorem sortDedup_idem {α : Type} [Ord α] [DecidableEq α] [TransOrd α] [LawfulEqOrd α] (l : List α) :
    sortDedup (sortDedup l) = sortDedup l :=
  sortDedup_eq_self (sortDedup_ascending l)

/-- The rules of a policy are sorted, and each has its lists in canonical form. -/
theorem mem_new_rules {revision : Nat} {default : Action} {rules : List Rule} {rule : Rule} :
    rule ∈ (Policy.new revision default rules).rules ↔ ∃ written ∈ rules,
      written.canonicalize = rule := by
  rw [Policy.new, (sortBy_perm _ _).mem_iff, List.mem_map]

/-- Reading back the rules of a policy keeps their order. -/
theorem new_reread {revision revision' : Nat} {default : Action} (rules : List Rule) :
    (Policy.new revision' default ((Policy.new revision default rules).rules.map
        (Rule.mapSelectors Selector.reread))).rules =
      (Policy.new revision default rules).rules.map (Rule.mapSelectors Selector.reread) := by
  have hcanonical : ((Policy.new revision default rules).rules.map
      (Rule.mapSelectors Selector.reread)).map Rule.canonicalize =
      (Policy.new revision default rules).rules.map (Rule.mapSelectors Selector.reread) := by
    rw [List.map_map]
    refine List.map_congr_left fun rule hrule => ?_
    obtain ⟨written, -, rfl⟩ := mem_new_rules.mp hrule
    simp only [Function.comp_apply, Rule.canonicalize, Rule.mapSelectors, Selector.reread,
      Selector.new, sortDedup_idem]
  have hsorted : ((Policy.new revision default rules).rules.map
      (Rule.mapSelectors Selector.reread)).Pairwise fun a b => (Rule.cmp a b).isLE := by
    rw [List.pairwise_map]
    exact sortBy_pairwise Rule.cmp (rules.map Rule.canonicalize)
  show sortBy Rule.cmp _ = _
  rw [hcanonical, sortBy_eq_self hsorted]

theorem reread_eq_trunc_iff {selector : Selector} :
    selector.reread = selector.trunc ↔ Ascending (selector.cidrs.map IpNet.trunc) := by
  rw [ascending_iff_sortDedup_eq]
  simp [Selector.reread, Selector.new, Selector.trunc]

/-- A selector that was read back has no host bits left to drop. -/
theorem trunc_reread (selector : Selector) : selector.reread.trunc = selector.reread := by
  have hcidrs : (sortDedup (selector.cidrs.map IpNet.trunc)).map IpNet.trunc =
      sortDedup (selector.cidrs.map IpNet.trunc) := by
    refine (List.map_congr_left fun network hnetwork => ?_).trans (List.map_id _)
    rw [mem_sortDedup, List.mem_map] at hnetwork
    obtain ⟨network, -, rfl⟩ := hnetwork
    exact IpNet.trunc_trunc network
  simp only [Selector.trunc, Selector.reread, Selector.new, hcidrs]

/-- The rules a policy's document describes are its own rules without host bits. -/
theorem reread_rules_iff {revision : Nat} {default : Action} {rules : List Rule} :
    (Policy.new revision default rules).rules.map (Rule.mapSelectors Selector.reread) =
        (Policy.new revision default rules).rules.map (Rule.mapSelectors Selector.trunc) ↔
      ∀ rule ∈ rules, rule.source.Portable ∧ rule.destination.Portable := by
  have hrule : ∀ rule : Rule, rule.mapSelectors Selector.reread = rule.mapSelectors Selector.trunc ↔
      rule.source.reread = rule.source.trunc ∧ rule.destination.reread = rule.destination.trunc := by
    intro rule
    simp [Rule.mapSelectors]
  simp only [List.map_inj_left, hrule, reread_eq_trunc_iff, mem_new_rules]
  constructor
  · intro h rule hmem
    exact h rule.canonicalize ⟨rule, hmem, rfl⟩
  · rintro h _ ⟨rule, hmem, rfl⟩
    exact h rule hmem

/-- A document determines its rules up to host bits. -/
theorem rules_of_document {rules other : List Rule} {default default' : Action}
    (h : Encodable rules) (h' : Encodable other)
    (hbytes : bodyBytes default rules = bodyBytes default' other) :
    rules.map (Rule.mapSelectors Selector.trunc) = other.map (Rule.mapSelectors Selector.trunc) := by
  have hread := decodeBody_reads (fun s hs => selectorFields_reads hs) h default
  have hread' := decodeBody_reads (fun s hs => selectorFields_reads hs) h' default'
  rw [hbytes] at hread
  exact congrArg Prod.snd (hread.unique hread')

/-- The re-encoding at the end of `decode_policy_document` succeeds with the same bytes exactly when
the networks of every selector survive without their host bits. -/
theorem reencodes_iff {revision revision' : Nat} {default : Action} {rules : List Rule}
    {bytes : Bytes} (h : encodePolicyDocument (Policy.new revision default rules) = .ok bytes) :
    encodePolicyDocument (Policy.new revision' default ((Policy.new revision default rules).rules.map
        (Rule.mapSelectors Selector.reread))) = .ok bytes ↔
      ∀ rule ∈ rules, rule.source.Portable ∧ rule.destination.Portable := by
  obtain ⟨hencodable, rfl⟩ := encodePolicyDocument_eq_ok.mp h
  rw [encodePolicyDocument_eq_ok, new_reread, ← @reread_rules_iff revision default]
  constructor
  · rintro ⟨hencodable', hbytes⟩
    have hrules := rules_of_document hencodable' hencodable (List.append_cancel_left hbytes)
    rw [List.map_map] at hrules
    rw [← hrules]
    refine List.map_congr_left fun rule _ => ?_
    simp only [Function.comp_apply, Rule.mapSelectors, trunc_reread]
  · intro hrules
    rw [hrules]
    exact ⟨hencodable.trunc, by rw [bodyBytes_trunc]; rfl⟩

/-- **The codec is canonical, and round-trips exactly the policies whose networks survive without
host bits.** Every accepted document is the encoding of what it decodes to. An encodable policy
decodes to one that decides alike if and only if its selectors are portable. -/
theorem codec_canonical_and_round_trips_iff (revision : Nat) :
    (∀ default rules bytes,
      encodePolicyDocument (Policy.new revision default rules) = .ok bytes →
        ((∃ decoded, decodePolicyDocument revision bytes = .ok decoded ∧
            decoded.Agrees (Policy.new revision default rules)) ↔
          ∀ rule ∈ rules, rule.source.Portable ∧ rule.destination.Portable)) ∧
      ∀ bytes decoded, decodePolicyDocument revision bytes = .ok decoded →
        encodePolicyDocument decoded = .ok bytes := by
  refine ⟨fun default rules bytes h => ?_, fun bytes decoded => encode_of_decode⟩
  constructor
  · rintro ⟨decoded, hdecode, -⟩
    obtain ⟨rfl, hencode⟩ := (decode_of_encode h).mp hdecode
    exact (reencodes_iff h).mp hencode
  · intro hportable
    refine ⟨_, (decode_of_encode h).mpr ⟨rfl, (reencodes_iff h).mpr hportable⟩, ?_⟩
    refine trunc_agrees rfl ?_
    rw [show (Policy.new revision default rules).default = default from rfl, new_reread,
      reread_rules_iff.mpr hportable]

/-- The document of a policy without rules: the domain, the default action, no rules. -/
example : (encodePolicyDocument (Policy.new 9 .allow [])).toOption =
    some (POLICY_DOCUMENT_DOMAIN ++ [1, 0, 0, 0, 0]) := by decide +kernel

/-- Allows TCP from anywhere in the given networks. -/
def allowFrom (cidrs : List IpNet) : Rule where
  id := ⟨0x00000000000040008000000000000007#128, by decide⟩
  priority := 10
  enabled := true
  log := false
  action := .allow
  source := { cidrs := cidrs }
  destination := {}
  protocol := .tcp
  destinationPorts := []

/-- 10.0.0.`host`/8. -/
def tenSlashEight (host : BitVec 32) : IpNet := .v4 ⟨0x0a000000#32 + host, 8, by decide⟩

/-- Host bits as such do no harm: 10.0.0.1/8 comes back as 10.0.0.0/8. -/
theorem single_network_round_trips :
    ∃ bytes, encodePolicyDocument (Policy.new 1 .deny [allowFrom [tenSlashEight 1]]) = .ok bytes ∧
      ∃ decoded, decodePolicyDocument 1 bytes = .ok decoded ∧
        decoded.Agrees (Policy.new 1 .deny [allowFrom [tenSlashEight 1]]) := by
  cases h : encodePolicyDocument (Policy.new 1 .deny [allowFrom [tenSlashEight 1]]) with
  | error err =>
      have hok : (encodePolicyDocument (Policy.new 1 .deny [allowFrom [tenSlashEight 1]])).isOk =
        true := by decide +kernel
      rw [h] at hok
      cases hok
  | ok bytes =>
      refine ⟨bytes, rfl, ((codec_canonical_and_round_trips_iff 1).1 _ _ _ h).mpr ?_⟩
      intro rule hrule
      cases List.mem_singleton.mp hrule
      exact ⟨by decide +kernel, by decide +kernel⟩

/-- 10.0.0.1/8 and 10.0.0.2/8 are two networks before encoding and one after it, so the policy's own
document does not decode. -/
theorem host_bits_make_document_unreadable :
    ∃ bytes, encodePolicyDocument
        (Policy.new 1 .deny [allowFrom [tenSlashEight 1, tenSlashEight 2]]) = .ok bytes ∧
      ¬ ∃ decoded, decodePolicyDocument 1 bytes = .ok decoded ∧
        decoded.Agrees (Policy.new 1 .deny [allowFrom [tenSlashEight 1, tenSlashEight 2]]) := by
  cases h : encodePolicyDocument
      (Policy.new 1 .deny [allowFrom [tenSlashEight 1, tenSlashEight 2]]) with
  | error err =>
      have hok : (encodePolicyDocument
        (Policy.new 1 .deny [allowFrom [tenSlashEight 1, tenSlashEight 2]])).isOk = true := by
          decide +kernel
      rw [h] at hok
      cases hok
  | ok bytes =>
      refine ⟨bytes, rfl, ?_⟩
      rintro ⟨decoded, hdecode, -⟩
      have hfails : (encodePolicyDocument
          (Policy.new 1 .deny [allowFrom [tenSlashEight 1, tenSlashEight 2]]) >>=
            decodePolicyDocument 1).isOk = false := by decide +kernel
      rw [h] at hfails
      change (decodePolicyDocument 1 bytes).isOk = false at hfails
      rw [hdecode] at hfails
      cases hfails

end Peerward.IdentityPolicy
