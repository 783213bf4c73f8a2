import Peerward.Policy.Document

/-!
# What a policy means

A policy is a set of rules, each with a set of alternatives in every dimension. Of the enabled rules
that apply to an initiation the one with the least priority decides, denials before allowances, and
the identifiers of rules settle what is left; without such a rule the default does. `Decides` says
this without any list order, and `decideInitiation` computes it however the rules and the lists in
them were written down.
-/

namespace Peerward.IdentityPolicy

open Std Peerward.Lib Peerward.Net Peerward.Types

/-! ## The declarative meaning

What a policy says, without sorting anything: of the rules that apply, the one before all others decides.
-/

/-- A first packet from one Peer to another. -/
structure Initiation where
  source : PeerDescriptor
  destination : PeerDescriptor
  protocol : UInt8
  destinationPort : Option Nat

/-- A selector admits a Peer when every dimension that is not empty does. -/
structure Selector.Admits (selector : Selector) (peer : PeerDescriptor) : Prop where
  peerIds : ∀ id ∈ selector.peerIds, peer.id ∈ selector.peerIds
  labels : ∀ key value : Text, selector.labels[key]? = some value → peer.labels[key]? = some value
  cidrs : ∀ network ∈ selector.cidrs, ∃ admitting ∈ selector.cidrs,
    admitting.contains peer.address = true

/-- A rule applies to an initiation. Only TCP and UDP rules look at the destination port. -/
structure Rule.Applies (rule : Rule) (initiation : Initiation) : Prop where
  enabled : rule.enabled = true
  protocol : rule.protocol.matchesProtocol initiation.protocol = true
  source : rule.source.Admits initiation.source
  destination : rule.destination.Admits initiation.destination
  ports : rule.protocol = .tcp ∨ rule.protocol = .udp → ∀ range ∈ rule.destinationPorts,
    ∃ port, initiation.destinationPort = some port ∧
      ∃ admitting ∈ rule.destinationPorts, admitting.first ≤ port ∧ port ≤ admitting.last

/-- Priority first, then denials before allowances, then the identifier. -/
def Rule.Before (a b : Rule) : Prop :=
  a.priority < b.priority ∨ a.priority = b.priority ∧
    (a.action = .deny ∧ b.action = .allow ∨ a.action = b.action ∧ a.id.value < b.id.value)

/-- The rule that decides: it applies, and before every other rule that does. -/
structure Decides (rules : List Rule) (initiation : Initiation) (rule : Rule) : Prop where
  mem : rule ∈ rules
  applies : rule.Applies initiation
  least : ∀ other ∈ rules, other.Applies initiation → other = rule ∨ rule.Before other

/-- The decision a rule asks for. -/
def Rule.decision (rule : Rule) : PolicyDecision where
  action := rule.action
  ruleId := some rule.id
  log := rule.log

/-- The decision without a rule. -/
def byDefault (action : Action) : PolicyDecision where
  action := action
  ruleId := none
  log := false

/-- The policy's answer to an initiation. -/
def Policy.answer (policy : Policy) (initiation : Initiation) : PolicyDecision :=
  policy.decideInitiation initiation.source initiation.destination initiation.protocol
    initiation.destinationPort

/-! ## Presentations

A list of rules may be reordered and repeat itself, and so may the lists inside of a rule. The constructor
gives all presentations the same policy.
-/

/-- The same rule with its alternatives written in another order, or some of them twice. -/
structure Rule.Presents (a b : Rule) : Prop where
  fields : { a with
    source := { a.source with cidrs := b.source.cidrs }
    destination := { a.destination with cidrs := b.destination.cidrs }
    destinationPorts := b.destinationPorts } = b
  sources : ∀ network, network ∈ a.source.cidrs ↔ network ∈ b.source.cidrs
  destinations : ∀ network, network ∈ a.destination.cidrs ↔ network ∈ b.destination.cidrs
  ports : ∀ range, range ∈ a.destinationPorts ↔ range ∈ b.destinationPorts

/-- The same rules in another order, each of them presented in its own way. -/
def Presents (rules rules' : List Rule) : Prop :=
  ∃ ordered, rules.Perm ordered ∧ List.Forall₂ Rule.Presents ordered rules'

theorem Rule.Presents.canonicalize {a b : Rule} (h : a.Presents b) :
    a.canonicalize = b.canonicalize := by
  rw [← h.fields]
  simp only [Rule.canonicalize, sortDedup_eq_of_mem_iff h.sources,
    sortDedup_eq_of_mem_iff h.destinations, sortDedup_eq_of_mem_iff h.ports]

/-- Rules with one key have one identifier. -/
theorem Rule.id_eq_of_cmp {a b : Rule} (h : Rule.cmp a b = .eq) : a.id = b.id := by
  simp only [Rule.cmp, compareLex_eq_eq, compareOn] at h
  exact LawfulEqOrd.eq_of_compare h.2.2

/-- **Presentations are one policy.** -/
theorem Policy.new_eq_of_presents (revision : Nat) (default : Action) {rules rules' : List Rule}
    (distinct : (rules.map Rule.id).Nodup) (h : Presents rules rules') :
    Policy.new revision default rules = Policy.new revision default rules' := by
  obtain ⟨ordered, hperm, hpresents⟩ := h
  have hcanonical : ordered.map Rule.canonicalize = rules'.map Rule.canonicalize :=
    List.forall₂_eq_eq_eq ▸ (List.forall₂_map_left_iff.mpr
      (List.forall₂_map_right_iff.mpr (hpresents.imp fun _ _ h => h.canonicalize)))
  have hids : ((rules.map Rule.canonicalize).map Rule.id).Nodup := by
    simpa [Function.comp_def, Rule.canonicalize] using distinct
  have hsorted : sortBy Rule.cmp (rules.map Rule.canonicalize) =
      sortBy Rule.cmp (ordered.map Rule.canonicalize) :=
    sortBy_eq_of_perm_of_eq
      (fun a ha b hb heq => List.inj_on_of_nodup_map hids ha hb (Rule.id_eq_of_cmp heq))
      (hperm.map _)
  rw [Policy.new, Policy.new, hsorted, hcanonical]

/-! ## One rule -/

theorem Selector.matchesPeer_eq_true {selector : Selector} {peer : PeerDescriptor} :
    selector.matchesPeer peer = true ↔ selector.Admits peer := by
  have hids : (selector.peerIds.isEmpty || selector.peerIds.contains peer.id) = true ↔
      ∀ id ∈ selector.peerIds, peer.id ∈ selector.peerIds := by
    rw [Bool.or_eq_true, ExtTreeSet.isEmpty_iff, ExtTreeSet.contains_iff_mem]
    constructor
    · rintro (hempty | hmem) id hid
      · simp [hempty] at hid
      · exact hmem
    · intro h
      by_cases hmem : peer.id ∈ selector.peerIds
      · exact .inr hmem
      · exact .inl (ExtTreeSet.eq_empty_iff_forall_not_mem.mpr fun id hid => hmem (h id hid))
  have hlabels : selector.labels.toList.all (fun label => peer.labels[label.1]? = some label.2) =
      true ↔ ∀ key value : Text, selector.labels[key]? = some value →
        peer.labels[key]? = some value := by
    simp only [List.all_eq_true, decide_eq_true_eq, Prod.forall,
      ExtTreeMap.mem_toList_iff_getElem?_eq_some]
  have hcidrs : (selector.cidrs.isEmpty || selector.cidrs.any (·.contains peer.address)) = true ↔
      ∀ network ∈ selector.cidrs, ∃ admitting ∈ selector.cidrs,
        admitting.contains peer.address = true := by
    rw [Bool.or_eq_true, List.isEmpty_iff, List.any_eq_true]
    constructor
    · rintro (hempty | hmem) network hnetwork
      · simp [hempty] at hnetwork
      · exact hmem
    · intro h
      cases hcidrs : selector.cidrs with
      | nil => exact .inl rfl
      | cons network rest => exact .inr (hcidrs ▸ h network (by simp [hcidrs]))
  rw [Selector.matchesPeer, Bool.and_eq_true, Bool.and_eq_true, hids, hlabels, hcidrs]
  exact ⟨fun ⟨⟨h₁, h₂⟩, h₃⟩ => ⟨h₁, h₂, h₃⟩, fun h => ⟨⟨h.1, h.2⟩, h.3⟩⟩

theorem Rule.matchesPort_eq_true {rule : Rule} {destinationPort : Option Nat} :
    rule.matchesPort destinationPort = true ↔
      (rule.protocol = .tcp ∨ rule.protocol = .udp → ∀ range ∈ rule.destinationPorts,
        ∃ port, destinationPort = some port ∧
          ∃ admitting ∈ rule.destinationPorts, admitting.first ≤ port ∧ port ≤ admitting.last) := by
  have hports : (rule.destinationPorts.isEmpty
        || destinationPort.any fun port => rule.destinationPorts.any (·.contains port)) = true ↔
      ∀ range ∈ rule.destinationPorts, ∃ port, destinationPort = some port ∧
        ∃ admitting ∈ rule.destinationPorts, admitting.first ≤ port ∧ port ≤ admitting.last := by
    simp only [Bool.or_eq_true, List.isEmpty_iff, Option.any_eq_true, List.any_eq_true,
      PortRange.contains, Bool.and_eq_true, decide_eq_true_eq]
    constructor
    · rintro (hempty | hmem) range hrange
      · simp [hempty] at hrange
      · exact hmem
    · intro h
      cases hranges : rule.destinationPorts with
      | nil => exact .inl rfl
      | cons range rest => exact .inr (hranges ▸ h range (by simp [hranges]))
  unfold Rule.matchesPort
  cases rule.protocol <;> simp [hports]

theorem Rule.matchesInitiation_eq_true {rule : Rule} {initiation : Initiation} :
    rule.matchesInitiation initiation.source initiation.destination initiation.protocol
      initiation.destinationPort = true ↔ rule.Applies initiation := by
  simp only [Rule.matchesInitiation, Bool.and_eq_true, Selector.matchesPeer_eq_true,
    Rule.matchesPort_eq_true]
  exact ⟨fun ⟨⟨⟨⟨h₁, h₂⟩, h₃⟩, h₄⟩, h₅⟩ => ⟨h₁, h₂, h₃, h₄, h₅⟩,
    fun h => ⟨⟨⟨⟨h.1, h.2⟩, h.3⟩, h.4⟩, h.5⟩⟩

/-- The canonical form of a rule applies to the same initiations. -/
theorem Rule.canonicalize_applies {rule : Rule} {initiation : Initiation} :
    rule.canonicalize.Applies initiation ↔ rule.Applies initiation := by
  constructor
  · rintro ⟨henabled, hprotocol, ⟨hs₁, hs₂, hs₃⟩, ⟨hd₁, hd₂, hd₃⟩, hports⟩
    exact ⟨henabled, hprotocol, ⟨hs₁, hs₂, by simpa [canonicalize] using hs₃⟩,
      ⟨hd₁, hd₂, by simpa [canonicalize] using hd₃⟩, by simpa [canonicalize] using hports⟩
  · rintro ⟨henabled, hprotocol, ⟨hs₁, hs₂, hs₃⟩, ⟨hd₁, hd₂, hd₃⟩, hports⟩
    exact ⟨henabled, hprotocol, ⟨hs₁, hs₂, by simpa [canonicalize] using hs₃⟩,
      ⟨hd₁, hd₂, by simpa [canonicalize] using hd₃⟩, by simpa [canonicalize] using hports⟩

/-- The sort key spells the order out. -/
theorem Rule.before_of_cmp {a b : Rule} (hle : (Rule.cmp a b).isLE) (hne : a.id ≠ b.id) :
    a.Before b := by
  have hid : (compare a.id b.id).isLE → a.id.value < b.id.value := by
    intro hle
    have hvalue : a.id.value ≤ b.id.value :=
      (isLE_compareOfLessAndEq BitVec.le_antisymm BitVec.not_le BitVec.le_total).mp hle
    have hdistinct : a.id.value.toNat ≠ b.id.value.toNat := fun heq =>
      hne (LawfulEqOrd.eq_of_compare (show compare a.id.value b.id.value = .eq by
        rw [BitVec.eq_of_toNat_eq heq]
        exact ReflCmp.compare_self))
    rw [BitVec.lt_def]
    have := BitVec.le_def.mp hvalue
    omega
  have hpriority : compare a.priority.toNat b.priority.toNat = .lt → a.priority < b.priority :=
    fun hlt => UInt32.lt_iff_toNat_lt.mpr (compare_lt_iff_lt.mp hlt)
  have hsame : compare a.priority.toNat b.priority.toNat = .eq → a.priority = b.priority :=
    fun heq => UInt32.toNat_inj.mp (LawfulEqOrd.eq_of_compare heq)
  rw [Rule.cmp, compareLex, compareLex, compareOn, compareOn, compareOn] at hle
  cases hfirst : compare a.priority.toNat b.priority.toNat with
  | lt => exact .inl (hpriority hfirst)
  | gt => simp [hfirst] at hle
  | eq =>
      rw [hfirst, Ordering.then] at hle
      refine .inr ⟨hsame hfirst, ?_⟩
      cases ha : a.action <;> cases hb : b.action <;> simp only [ha, hb, actionOrder] at hle
      · exact .inr ⟨rfl, hid hle⟩
      · cases hle
      · exact .inl ⟨rfl, rfl⟩
      · exact .inr ⟨rfl, hid hle⟩

/-- The order is strict. -/
theorem Rule.Before.asymm {a b : Rule} (hab : a.Before b) (hba : b.Before a) : False := by
  rcases hab with hlt | ⟨hsame, hab⟩ <;> rcases hba with hlt' | ⟨hsame', hba⟩
  · exact absurd hlt' (UInt32.lt_asymm hlt)
  · exact UInt32.lt_irrefl _ (hsame' ▸ hlt)
  · exact UInt32.lt_irrefl _ (hsame ▸ hlt')
  · rcases hab with ⟨ha, hb⟩ | ⟨hactions, hid⟩ <;> rcases hba with ⟨hb', ha'⟩ | ⟨hactions', hid'⟩
    · exact absurd (ha.symm.trans ha') nofun
    · exact absurd (ha.symm.trans (hactions'.symm.trans hb)) nofun
    · exact absurd (ha'.symm.trans (hactions.trans hb')) nofun
    · exact BitVec.lt_irrefl _ (BitVec.lt_trans hid hid')

/-! ## The decision

The sorted list puts the rule that decides in front of every other rule that applies, so the first that
applies is the one.
-/

variable {rules : List Rule} {initiation : Initiation}

/-- Two rules that both decide have one identifier. -/
theorem Decides.unique {a b : Rule} (ha : Decides rules initiation a)
    (hb : Decides rules initiation b) : a = b := by
  rcases ha.least b hb.mem hb.applies with heq | hab
  · exact heq.symm
  · rcases hb.least a ha.mem ha.applies with heq | hba
    · exact heq
    · exact (hab.asymm hba).elim

/-- **The meaning of a policy.** The rule that decides does, and without one the default. -/
theorem Policy.answer_new (revision : Nat) (default : Action)
    (distinct : (rules.map Rule.id).Nodup) (initiation : Initiation) :
    (∃ rule, Decides rules initiation rule ∧
        (Policy.new revision default rules).answer initiation = rule.decision) ∨
      ((∀ rule ∈ rules, ¬ rule.Applies initiation) ∧
        (Policy.new revision default rules).answer initiation = byDefault default) := by
  have hmem : ∀ {rule}, rule ∈ (Policy.new revision default rules).rules ↔
      ∃ written ∈ rules, written.canonicalize = rule := by
    intro rule
    rw [Policy.new, (sortBy_perm _ _).mem_iff, List.mem_map]
  unfold Policy.answer Policy.decideInitiation
  split
  · next first hfind =>
    left
    obtain ⟨rule, hrule, rfl⟩ := hmem.mp (List.mem_of_find?_eq_some hfind)
    refine ⟨rule, ⟨hrule, ?_, ?_⟩, rfl⟩
    · exact Rule.canonicalize_applies.mp
        (Rule.matchesInitiation_eq_true.mp (by simpa using List.find?_some hfind))
    · intro other hother happlies
      by_cases hid : other.id = rule.id
      · exact .inl (List.inj_on_of_nodup_map distinct hother hrule hid)
      · right
        have hmatches := Rule.matchesInitiation_eq_true.mpr
          (Rule.canonicalize_applies.mpr happlies)
        rcases rel_of_find? (sortBy_pairwise Rule.cmp _) hfind (hmem.mpr ⟨other, hother, rfl⟩)
          hmatches with heq | hle
        · exact absurd (congrArg Rule.id heq) hid
        · exact Rule.before_of_cmp hle (Ne.symm hid)
  · next hnone =>
    refine .inr ⟨fun rule hrule happlies => ?_, rfl⟩
    rw [List.find?_eq_none] at hnone
    exact hnone _ (hmem.mpr ⟨rule, hrule, rfl⟩)
      (Rule.matchesInitiation_eq_true.mpr (Rule.canonicalize_applies.mpr happlies))

/-- **A policy decides by its meaning, however it is presented.** The enabled rule that applies and
comes first by priority, denial before allowance and identifier gives action, identifier and log
flag, and without one the default does; other presentations of the rules decide alike; and what is
allowed is denied by no rule of equal or smaller priority. -/
theorem Policy.new_meaning (revision : Nat) (default : Action) (rules : List Rule)
    (distinct : (rules.map Rule.id).Nodup) (initiation : Initiation) :
    (∀ rule, Decides rules initiation rule →
      (Policy.new revision default rules).answer initiation = rule.decision) ∧
    ((∀ rule ∈ rules, ¬ rule.Applies initiation) →
      (Policy.new revision default rules).answer initiation = byDefault default) ∧
    ((∃ rule ∈ rules, rule.Applies initiation) → ∃ rule, Decides rules initiation rule) ∧
    (∀ rules', Presents rules rules' →
      (Policy.new revision default rules').answer initiation =
        (Policy.new revision default rules).answer initiation) ∧
    (((Policy.new revision default rules).answer initiation).action = .allow →
      ∀ denial ∈ rules, denial.action = .deny → denial.Applies initiation →
        ∃ rule, Decides rules initiation rule ∧ rule.action = .allow ∧
          rule.priority < denial.priority) := by
  have hanswer := Policy.answer_new revision default distinct initiation
  refine ⟨?_, ?_, ?_, ?_, ?_⟩
  · intro rule hrule
    rcases hanswer with ⟨other, hother, heq⟩ | ⟨hnone, -⟩
    · rwa [hrule.unique hother]
    · exact absurd hrule.applies (hnone rule hrule.mem)
  · intro hnone
    rcases hanswer with ⟨other, hother, -⟩ | ⟨-, heq⟩
    · exact absurd hother.applies (hnone other hother.mem)
    · exact heq
  · rintro ⟨rule, hrule, happlies⟩
    rcases hanswer with ⟨other, hother, -⟩ | ⟨hnone, -⟩
    · exact ⟨other, hother⟩
    · exact absurd happlies (hnone rule hrule)
  · intro rules' hpresents
    rw [Policy.new_eq_of_presents revision default distinct hpresents]
  · intro hallow denial hdenial hdeny happlies
    rcases hanswer with ⟨rule, hrule, heq⟩ | ⟨hnone, -⟩
    · rw [heq] at hallow
      refine ⟨rule, hrule, hallow, ?_⟩
      rcases hrule.least denial hdenial happlies with rfl | hlt | ⟨-, ⟨hdeny', -⟩ | ⟨hsame, -⟩⟩
      · exact absurd (hallow.symm.trans hdeny) nofun
      · exact hlt
      · exact absurd (hallow.symm.trans hdeny') nofun
      · exact absurd (hallow.symm.trans (hsame.trans hdeny)) nofun
    · exact absurd happlies (hnone denial hdenial)

/-- A TCP rule for every Peer. -/
def everyone (id : Id) (priority : UInt32) (action : Action) (ports : List PortRange) : Rule where
  id := id
  priority := priority
  enabled := true
  log := true
  action := action
  source := {}
  destination := {}
  protocol := .tcp
  destinationPorts := ports

/-- Port 443, and nothing else. -/
def https : PortRange := ⟨443, 443, by decide⟩

/-- Written in either order, with the port once or twice, the denial of equal priority decides
although its identifier is the greater one. -/
theorem new_meaning_everyone :
    let allow := everyone ⟨0x00000000000040008000000000000001#128, by decide⟩ 7 .allow [https]
    let deny := everyone ⟨0x000000000000400080000000000000fa#128, by decide⟩ 7 .deny
    let peer : PeerDescriptor :=
      ⟨⟨0x00000000000040008000000000000002#128, by decide⟩, .v4 0x0a0b0002#32, ∅⟩
    (Policy.new 1 .allow [deny [https, https], allow]).answer ⟨peer, peer, TCP, some 443⟩ =
      (deny [https]).decision := by
  intro allow deny peer
  have hmeaning := Policy.new_meaning 1 .allow [allow, deny [https]] (by decide)
    ⟨peer, peer, TCP, some 443⟩
  refine (hmeaning.2.2.2.1 [deny [https, https], allow] ?_).trans (hmeaning.1 _ ?_)
  · refine ⟨[deny [https], allow], .swap _ _ _, .cons ?_ (.cons ?_ .nil)⟩
    · exact ⟨rfl, fun _ => Iff.rfl, fun _ => Iff.rfl, by simp [deny, everyone]⟩
    · exact ⟨rfl, fun _ => Iff.rfl, fun _ => Iff.rfl, fun _ => Iff.rfl⟩
  · refine ⟨by simp, ?_, ?_⟩
    · rw [← Rule.matchesInitiation_eq_true]
      decide +kernel
    · simp only [List.mem_cons, List.not_mem_nil, or_false]
      rintro other (rfl | rfl) -
      · exact .inr (.inr ⟨rfl, .inl ⟨rfl, rfl⟩⟩)
      · exact .inl rfl

end Peerward.IdentityPolicy
