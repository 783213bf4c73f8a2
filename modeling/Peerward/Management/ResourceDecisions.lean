import Peerward.Management.ResourcePolicy

/-!
# One priority order for aliased resources

A packet belongs to every most specific resource at its address. Each rule looks for the least of
these aliases that it applies to, and the least rule of those that found one decides. A `Deny` that
matches any alias is therefore in the running against every `Allow`, whichever alias that one is for.
-/

namespace Peerward.Management

open Std Peerward.Lib Peerward.Net Peerward.Types

/-! ## The least element -/

section Least

variable {α : Type} {cmp : α → α → Ordering} {items other : List α} {best found : α}

theorem foldl_least (cmp : α → α → Ordering) [TransCmp cmp] (best : α) (items : List α) :
    ∃ found ∈ best :: items,
      items.foldl (fun best item =>
        match best with
        | none => some item
        | some found => if cmp item found = .lt then some item else best) (some best) = some found ∧
      ∀ item ∈ best :: items, (cmp found item).isLE = true := by
  induction items generalizing best with
  | nil =>
      refine ⟨best, List.mem_cons_self, rfl, fun item hitem => ?_⟩
      rw [List.mem_singleton.mp hitem]
      exact ReflCmp.isLE_rfl
  | cons item items ih =>
      rw [List.foldl_cons]
      dsimp only
      split
      · next hlt =>
          obtain ⟨found, hmem, hfold, hle⟩ := ih item
          refine ⟨found, List.mem_cons_of_mem _ hmem, hfold, ?_⟩
          refine List.forall_mem_cons.mpr ⟨?_, hle⟩
          exact TransCmp.isLE_trans (hle item List.mem_cons_self) (Ordering.isLE_of_eq_lt hlt)
      · next hnot =>
          obtain ⟨found, hmem, hfold, hle⟩ := ih best
          have hbest := hle best List.mem_cons_self
          refine ⟨found, by grind, hfold, ?_⟩
          simp only [List.mem_cons, forall_eq_or_imp] at hle ⊢
          refine ⟨hle.1, TransCmp.isLE_trans hbest ?_, hle.2⟩
          rw [@OrientedCmp.eq_swap _ cmp, Ordering.isLE_swap]
          exact Ordering.isGE_iff_ne_lt.mpr hnot

theorem least_spec [TransCmp cmp] (h : least cmp items = some found) :
    found ∈ items ∧ ∀ item ∈ items, (cmp found item).isLE = true := by
  cases items with
  | nil => cases h
  | cons item items =>
      obtain ⟨found', hmem, hfold, hle⟩ := foldl_least cmp item items
      rw [← Option.some.inj (hfold.symm.trans h)]
      exact ⟨hmem, hle⟩

theorem least_eq_none [TransCmp cmp] : least cmp items = none ↔ items = [] := by
  cases items with
  | nil => simp [least]
  | cons item items =>
      obtain ⟨found, -, hfold, -⟩ := foldl_least cmp item items
      refine ⟨fun h => ?_, fun h => nomatch h⟩
      exact nomatch hfold.symm.trans h

/-- The order of the items shows only in which of several equal ones is found. -/
theorem least_perm (cmp : α → α → Ordering) [TransCmp cmp] (hperm : items.Perm other) :
    (least cmp items = none ∧ least cmp other = none) ∨
      ∃ found found', least cmp items = some found ∧ least cmp other = some found' ∧
        cmp found found' = .eq := by
  cases h : least cmp items with
  | none =>
      rw [least_eq_none] at h
      subst h
      exact .inl ⟨rfl, by rw [least_eq_none]; exact hperm.nil_eq.symm⟩
  | some found =>
      obtain ⟨hmem, hle⟩ := least_spec h
      cases h' : least cmp other with
      | none =>
          rw [least_eq_none] at h'
          subst h'
          rw [hperm.eq_nil] at hmem
          cases hmem
      | some found' =>
          obtain ⟨hmem', hle'⟩ := least_spec h'
          refine .inr ⟨found, found', rfl, rfl, ?_⟩
          exact OrientedCmp.isLE_antisymm (hle _ (hperm.mem_iff.mpr hmem'))
            (hle' _ (hperm.mem_iff.mp hmem))

end Least

/-! ## Aliases

Which resources a packet may belong to, said by their targets: the most specific ones at its address, and
an Internet exit only where nothing more specific is valid.
-/

variable {resources : List NetworkResource} {address : IpAddr} {exit : Option Uuid}

/-- A resource a packet to this address may belong to. -/
def Reaches (address : IpAddr) (exit : Option Uuid) (resource : NetworkResource) : Prop :=
  resource.definition.target.contains address = true ∧
    (resource.definition.target.isInternet = true → some resource.id = exit)

/-- A most specific one. An Internet exit is one only where no valid subnet contains the address. -/
structure IsAlias (resources : List NetworkResource) (address : IpAddr) (exit : Option Uuid)
    (resource : NetworkResource) : Prop where
  reaches : Reaches address exit resource
  greatest : ∀ other ∈ resources, Reaches address exit other →
    other.definition.target.specificity ≤ resource.definition.target.specificity
  noSubnet : resource.definition.target.isInternet = true → ∀ other ∈ resources,
    other.definition.target.validate = .ok () → other.definition.target.contains address = true →
      other.definition.target.isInternet = true

/-- The specificities of a valid subnet and of an Internet exit differ. -/
theorem specificity_pos {target : ResourceTarget} (hvalid : target.validate = .ok ())
    (hsubnet : target.isInternet = false) : 0 < target.specificity := by
  cases target with
  | internet ipv4 ipv6 => cases hsubnet
  | subnet network siteId =>
      have hvalid := rejectIf_eq_ok.mp hvalid
      simp only [Bool.or_eq_false_iff, decide_eq_false_iff_not] at hvalid
      exact Nat.pos_of_ne_zero hvalid.1.1.1.1.2

/-- The filter of `packet_resource_aliases`. -/
theorem reaches_iff {resource : NetworkResource} :
    (resource.definition.target.contains address
      && (!resource.definition.target.isInternet || some resource.id = exit)) = true ↔
      Reaches address exit resource := by
  cases h : resource.definition.target.isInternet <;> simp [Reaches, h]

theorem isAlias_iff {resource : NetworkResource} {specificity : Nat}
    (hsome : ∃ other ∈ resources, Reaches address exit other ∧
      other.definition.target.specificity = specificity)
    (hmax : ∀ other ∈ resources, Reaches address exit other →
      other.definition.target.specificity ≤ specificity) (hmem : resource ∈ resources) :
    Reaches address exit resource ∧ resource.definition.target.specificity = specificity ↔
      IsAlias resources address exit resource := by
  constructor
  · rintro ⟨hreaches, hspecificity⟩
    refine ⟨hreaches, fun other hother hr => hspecificity ▸ hmax other hother hr, ?_⟩
    intro hinternet other hother hvalid hcontains
    by_contra hsubnet
    rw [Bool.not_eq_true] at hsubnet
    have hpos := specificity_pos hvalid hsubnet
    have hle := hmax other hother ⟨hcontains, fun h => absurd h (by simp [hsubnet])⟩
    have hzero : resource.definition.target.specificity = 0 := by
      revert hinternet
      cases resource.definition.target <;> simp [ResourceTarget.isInternet, ResourceTarget.specificity]
    omega
  · rintro ⟨hreaches, hgreatest, -⟩
    obtain ⟨other, hother, hr, rfl⟩ := hsome
    exact ⟨hreaches, Nat.le_antisymm (hmax resource hmem hreaches) (hgreatest other hother hr)⟩

open Classical in
/-- The aliases are the ids of the most specific resources, in ascending order. -/
theorem packetResourceAliases_spec (resources : List NetworkResource) (address : IpAddr)
    (exit : Option Uuid) :
    (packetResourceAliases resources address exit).Perm
        ((resources.filter fun resource => IsAlias resources address exit resource).map (·.id)) ∧
      (packetResourceAliases resources address exit).Pairwise fun a b => (compare a b).isLE := by
  unfold packetResourceAliases
  dsimp only
  split
  · next hnone =>
      rw [List.max?_eq_none_iff, List.map_eq_nil_iff, List.filter_eq_nil_iff] at hnone
      have hempty : (resources.filter fun resource => IsAlias resources address exit resource) = [] := by
        rw [List.filter_eq_nil_iff]
        intro resource hmem halias
        exact hnone resource hmem (reaches_iff.mpr (of_decide_eq_true halias).reaches)
      rw [hempty]
      exact ⟨List.Perm.refl _, List.Pairwise.nil⟩
  · next specificity hsome =>
      obtain ⟨hmem, hmax⟩ := List.max?_eq_some_iff.mp hsome
      simp only [List.mem_map, List.mem_filter, reaches_iff] at hmem hmax
      obtain ⟨best, ⟨hbest, hreaches⟩, hspecificity⟩ := hmem
      refine ⟨(sortBy_perm _ _).trans (List.Perm.of_eq ?_), sortBy_pairwise _ _⟩
      rw [List.filter_filter]
      congr 1
      refine List.filter_congr fun resource hresource => ?_
      rw [Bool.eq_iff_iff, Bool.and_eq_true, reaches_iff, decide_eq_true_eq, decide_eq_true_eq,
        and_comm]
      exact isAlias_iff ⟨best, hbest, hreaches, hspecificity⟩
        (fun other hother hr => hmax _ ⟨other, ⟨hother, hr⟩, rfl⟩) hresource

theorem packetResourceAliases_perm {resources' : List NetworkResource}
    (hperm : resources.Perm resources') :
    packetResourceAliases resources address exit = packetResourceAliases resources' address exit := by
  unfold packetResourceAliases
  dsimp only
  have hfound := hperm.filter fun resource =>
    resource.definition.target.contains address
      && (!resource.definition.target.isInternet || some resource.id = exit)
  generalize resources.filter _ = found at hfound ⊢
  generalize resources'.filter _ = found' at hfound ⊢
  have hmax : (found.map (·.definition.target.specificity)).max? =
      (found'.map (·.definition.target.specificity)).max? := by
    refine Option.ext fun specificity => ?_
    rw [List.max?_eq_some_iff, List.max?_eq_some_iff, (hfound.map _).mem_iff]
    exact and_congr_right fun _ => forall_congr' fun other => by rw [(hfound.map _).mem_iff]
  rw [hmax]
  split
  · rfl
  · exact sortBy_eq_of_perm ((hfound.filter _).map _)

/-! ## Decisions

A decision takes the least rule of each alias and the least of these. That is the least of all rules that
apply, so it does not matter how they are listed.
-/

variable {rules rules' : List ResourceRule} {collections collections' : List ResolvedCollection}
  {aliases aliases' : List Uuid} {bindings bindings' : List GatewayBinding} {access : ResourceAccess}
  {rule : ResourceRule} {resource : Uuid}

instance : TransCmp selectionCmp := inferInstanceAs (TransCmp (compareLex _ _))

/-- A rule allows the access through one alias, and no rule of at least its rank denies any. -/
structure Grants (rules : List ResourceRule) (collections : List ResolvedCollection)
    (aliases : List Uuid) (bindings : List GatewayBinding) (access : ResourceAccess)
    (rule : ResourceRule) (resource : Uuid) : Prop where
  mem : rule ∈ rules
  allows : rule.action = .allow
  isAlias : resource ∈ aliases
  applies : resourceRuleMatches rule collections { access with resource } = true
  bound : ∃ binding ∈ bindings, binding.resourceId = resource ∧ binding.peerId = access.provider ∧
    binding.approved = true
  undenied : ∀ deny ∈ rules, deny.action = .deny → deny.priority ≤ rule.priority →
    ∀ other ∈ aliases, resourceRuleMatches deny collections { access with resource := other } = false

/-- The rules that apply to an alias, each with the least one. -/
def candidates (rules : List ResourceRule) (collections : List ResolvedCollection)
    (aliases : List Uuid) (bindings : List GatewayBinding) (access : ResourceAccess) :
    List (ResourceRule × Uuid) :=
  rules.filterMap fun rule =>
    (least compare (aliases.filter (ruleApplies collections bindings access rule))).map (rule, ·)

theorem decideResourceAliases_eq :
    decideResourceAliases rules collections aliases bindings access =
      match least selectionCmp (candidates rules collections aliases bindings access) with
      | none => (.deny, none, none)
      | some (rule, resource) => (rule.action, some rule.id, some resource) := rfl

theorem mem_candidates (h : (rule, resource) ∈ candidates rules collections aliases bindings access) :
    rule ∈ rules ∧ resource ∈ aliases ∧ ruleApplies collections bindings access rule resource = true := by
  obtain ⟨rule', hrule, hleast⟩ := List.mem_filterMap.mp h
  obtain ⟨resource', hleast, heq⟩ := Option.map_eq_some_iff.mp hleast
  cases heq
  obtain ⟨hmem, -⟩ := least_spec hleast
  rw [List.mem_filter] at hmem
  exact ⟨hrule, hmem⟩

/-- A rule that applies to some alias takes part in the selection. -/
theorem exists_mem_candidates (hrule : rule ∈ rules) (halias : resource ∈ aliases)
    (happlies : ruleApplies collections bindings access rule resource = true) :
    ∃ least, (rule, least) ∈ candidates rules collections aliases bindings access := by
  have hsome : least compare (aliases.filter (ruleApplies collections bindings access rule)) ≠ none := by
    rw [Ne, least_eq_none, List.filter_eq_nil_iff]
    exact fun hnone => hnone resource halias happlies
  obtain ⟨found, hfound⟩ := Option.ne_none_iff_exists'.mp hsome
  exact ⟨found, List.mem_filterMap.mpr ⟨rule, hrule, by rw [hfound, Option.map_some]⟩⟩

theorem Grants.ruleApplies (h : Grants rules collections aliases bindings access rule resource) :
    ruleApplies collections bindings access rule resource = true := by
  obtain ⟨binding, hbinding, hresource, hpeer, happroved⟩ := h.bound
  rw [Management.ruleApplies, Bool.and_eq_true, Bool.or_eq_true]
  refine ⟨h.applies, .inr (List.any_eq_true.mpr ⟨binding, hbinding, ?_⟩)⟩
  simp [hresource, hpeer, happroved]

theorem ruleApplies_deny (bindings : List GatewayBinding) (hdeny : rule.action = .deny)
    (happlies : resourceRuleMatches rule collections { access with resource } = true) :
    ruleApplies collections bindings access rule resource = true := by
  simp [ruleApplies, hdeny, happlies]

/-- The order of selection: by priority, and `Deny` before `Allow`. -/
theorem selectionCmp_isLE {first second : ResourceRule × Uuid}
    (h : (selectionCmp first second).isLE = true) :
    first.1.priority < second.1.priority ∨ (first.1.priority = second.1.priority ∧
      first.1.action.rank ≤ second.1.action.rank) := by
  rw [selectionCmp, compareLex, Ordering.isLE_then_iff_or] at h
  rcases h with hlt | ⟨heq, hle⟩
  · exact .inl (Nat.compare_eq_lt.mp hlt)
  · refine .inr ⟨Nat.compare_eq_eq.mp heq, ?_⟩
    rw [compareLex, Ordering.isLE_then_iff_or] at hle
    rcases hle with hlt | ⟨heq, -⟩
    · exact (Nat.compare_eq_lt.mp hlt).le
    · exact (Nat.compare_eq_eq.mp heq).le

/-- An access is allowed by a rule that grants it, or denied when no rule does. -/
theorem decideResourceAliases_spec (rules : List ResourceRule) (collections : List ResolvedCollection)
    (aliases : List Uuid) (bindings : List GatewayBinding) (access : ResourceAccess) :
    (∃ rule resource, Grants rules collections aliases bindings access rule resource ∧
      decideResourceAliases rules collections aliases bindings access =
        (.allow, some rule.id, some resource)) ∨
    ((decideResourceAliases rules collections aliases bindings access).1 = .deny ∧
      ∀ rule resource, ¬ Grants rules collections aliases bindings access rule resource) := by
  rw [decideResourceAliases_eq]
  cases hleast : least selectionCmp (candidates rules collections aliases bindings access) with
  | none =>
      refine .inr ⟨rfl, fun rule resource hgrants => ?_⟩
      obtain ⟨found, hfound⟩ := exists_mem_candidates hgrants.mem hgrants.isAlias hgrants.ruleApplies
      rw [least_eq_none.mp hleast] at hfound
      cases hfound
  | some entry =>
      obtain ⟨rule, resource⟩ := entry
      obtain ⟨hmem, hle⟩ := least_spec hleast
      obtain ⟨hrule, halias, happlies⟩ := mem_candidates hmem
      rw [ruleApplies, Bool.and_eq_true, Bool.or_eq_true, decide_eq_true_eq] at happlies
      cases haction : rule.action with
      | allow =>
          left
          have hbound := happlies.2.resolve_left (by simp [haction])
          obtain ⟨binding, hbinding, hb⟩ := List.any_eq_true.mp hbound
          simp only [Bool.and_eq_true, decide_eq_true_eq] at hb
          refine ⟨rule, resource, ⟨hrule, haction, halias, happlies.1,
            ⟨binding, hbinding, hb.1.1, hb.1.2, hb.2⟩, ?_⟩, by simp only [haction]⟩
          intro deny hdeny hd hpriority other hother
          by_contra hmatches
          rw [Bool.not_eq_false] at hmatches
          obtain ⟨found, hfound⟩ :=
            exists_mem_candidates hdeny hother (ruleApplies_deny bindings hd hmatches)
          rcases selectionCmp_isLE (hle _ hfound) with hlt | ⟨-, hrank⟩
          · simp only at hlt
            omega
          · simp [haction, hd, ResourceAction.rank] at hrank
      | deny =>
          refine .inr ⟨haction, fun allow other hgrants => ?_⟩
          obtain ⟨found, hfound⟩ :=
            exists_mem_candidates hgrants.mem hgrants.isAlias hgrants.ruleApplies
          have hpriority : rule.priority ≤ allow.priority := by
            rcases selectionCmp_isLE (hle _ hfound) with hlt | ⟨heq, -⟩
            · exact hlt.le
            · exact heq.le
          have hnot := hgrants.undenied rule hrule haction hpriority resource halias
          rw [happlies.1] at hnot
          cases hnot

theorem collectionContains_perm (hc : collections.Perm collections') (ids : ExtTreeSet Uuid)
    (kind : CollectionKind) (member : Uuid) :
    collectionContains collections ids kind member = collectionContains collections' ids kind member :=
  hc.any_eq

theorem ruleApplies_perm (hc : collections.Perm collections') (hb : bindings.Perm bindings') :
    ruleApplies collections bindings access rule resource =
      ruleApplies collections' bindings' access rule resource := by
  unfold ruleApplies resourceRuleMatches
  simp only [collectionContains_perm hc, hb.any_eq]

/-- The decision does not depend on the order of what it is taken from. -/
theorem decideResourceAliases_perm (hr : rules.Perm rules') (hc : collections.Perm collections')
    (ha : aliases.Perm aliases') (hb : bindings.Perm bindings') :
    decideResourceAliases rules collections aliases bindings access =
      decideResourceAliases rules' collections' aliases' bindings' access := by
  have hleast : ∀ rule, least compare (aliases.filter (ruleApplies collections bindings access rule)) =
      least compare (aliases'.filter (ruleApplies collections' bindings' access rule)) := by
    intro rule
    have hsame : ruleApplies collections bindings access rule =
        ruleApplies collections' bindings' access rule := funext fun _ => ruleApplies_perm hc hb
    rw [hsame]
    rcases least_perm compare (ha.filter _) with ⟨hnone, hnone'⟩ | ⟨first, second, hfirst, hsecond, heq⟩
    · rw [hnone, hnone']
    · rw [hfirst, hsecond, LawfulEqOrd.eq_of_compare heq]
  have hcandidates : (candidates rules collections aliases bindings access).Perm
      (candidates rules' collections' aliases' bindings' access) := by
    unfold candidates
    simp only [hleast]
    exact hr.filterMap _
  rw [decideResourceAliases_eq, decideResourceAliases_eq]
  rcases least_perm selectionCmp hcandidates with ⟨hnone, hnone'⟩ | ⟨first, second, hfirst, hsecond, heq⟩
  · rw [hnone, hnone']
  · rw [hfirst, hsecond]
    -- equal keys have the same action, rule and resource
    simp only [selectionCmp, compareLex_eq_eq, compareOn, LawfulEqOrd.compare_eq_iff_eq] at heq
    obtain ⟨-, hrank, hid, hresource⟩ := heq
    have haction : first.1.action = second.1.action := by
      revert hrank
      cases first.1.action <;> cases second.1.action <;> simp [ResourceAction.rank]
    simp only [haction, hid, hresource]

open Classical in
/-- The aliases of a packet are the most specific resources at its address; the decision over them
is an `Allow` by a rule that grants the access, and a `Deny` when there is none; and neither depends
on the order of rules, resources, bindings and collections. -/
theorem packet_decision (rules : List ResourceRule) (collections : List ResolvedCollection)
    (bindings : List GatewayBinding) (resources : List NetworkResource) (address : IpAddr)
    (exit : Option Uuid) (access : ResourceAccess) :
    let aliases := packetResourceAliases resources address exit
    (aliases.Perm ((resources.filter (IsAlias resources address exit ·)).map (·.id)) ∧
      aliases.Pairwise fun a b => (compare a b).isLE) ∧
    ((∃ rule resource, Grants rules collections aliases bindings access rule resource ∧
        decideResourceAliases rules collections aliases bindings access =
          (.allow, some rule.id, some resource)) ∨
      ((decideResourceAliases rules collections aliases bindings access).1 = .deny ∧
        ∀ rule resource, ¬ Grants rules collections aliases bindings access rule resource)) ∧
    ∀ rules' collections' bindings' resources', rules.Perm rules' → collections.Perm collections' →
      bindings.Perm bindings' → resources.Perm resources' →
      packetResourceAliases resources' address exit = aliases ∧
      decideResourceAliases rules' collections' aliases bindings' access =
        decideResourceAliases rules collections aliases bindings access := by
  refine ⟨packetResourceAliases_spec .., decideResourceAliases_spec .., ?_⟩
  intro rules' collections' bindings' resources' hr hc hb hres
  exact ⟨(packetResourceAliases_perm hres).symm,
    (decideResourceAliases_perm hr hc (List.Perm.refl _) hb).symm⟩

/-! ## A subnet that is not validated

Validation is what keeps a subnet from being as unspecific as an exit. Without it, an exit ties with a
subnet that contains the address.
-/

def sharedMesh : MeshId := ⟨0x40008000000000000001#128, Types.random_one⟩

def resourceAt (id : Uuid) (target : ResourceTarget) : NetworkResource where
  id := id
  meshId := sharedMesh
  version := 1
  definition := { name := ⟨[112], by decide +kernel⟩, target }

def internetExit : NetworkResource := resourceAt 2 (.internet true true)

/-- A subnet that `ResourceTarget::validate` refuses: it has the specificity of an exit. -/
def defaultSubnet : NetworkResource := resourceAt 3 (.subnet (.v4 ⟨0#32, 0, by decide⟩) 7)

/-- The exit is an alias although a subnet contains the address. -/
theorem defaultSubnet_ties_with_exit :
    internetExit.id ∈ packetResourceAliases [defaultSubnet, internetExit] (.v4 0x08080808#32)
        (some internetExit.id) ∧
      defaultSubnet.id ≠ internetExit.id ∧
      defaultSubnet.definition.target.isInternet = false ∧
      defaultSubnet.definition.target.contains (.v4 0x08080808#32) = true := by
  refine ⟨?_, by decide, rfl, by decide +kernel⟩
  have hfound : ([defaultSubnet, internetExit].filter fun resource =>
      resource.definition.target.contains (.v4 0x08080808#32)
        && (!resource.definition.target.isInternet || some resource.id = some internetExit.id)) =
      [defaultSubnet, internetExit] := by decide +kernel
  have hmax : ([defaultSubnet, internetExit].map (·.definition.target.specificity)).max? = some 0 :=
    List.max?_eq_some_iff.mpr (by decide)
  simp only [packetResourceAliases, hfound, hmax, (sortBy_perm _ _).mem_iff]
  decide

end Peerward.Management
