import Peerward.Platform.Applying

/-!
# The operations of an intent

Every operation that an intent becomes is sound on a host where what it adds is absent, and no two swaps
of one intent meet on an object.
-/

namespace Peerward.Platform

open Peerward.Lib Peerward.Net

variable {env : Environment} {b h : Host} {mtu : Nat} {operation : Operation} {beforeMutation : Bool}

/-! ## Lists of operations

An operation may run when nothing that was applied before it has changed its object. For additions this is
where they are absent; a swap needs that nobody else swaps the same object.
-/

theorem Sound.swapped (hs : Sound b mtu operation) :
    operation.rollback.object.swapped = operation.isSwap := by
  cases hs <;> rfl

theorem freshFor_nil : FreshFor [] operation := ⟨nofun, nofun⟩

/-- Only a rollback on a swapped object is in the way of a swap. -/
theorem freshFor_of_swapped {applied : List CommandSpec} (hs : Sound b mtu operation)
    (hlink : ∀ interface, operation.rollback ≠ .linkDown interface)
    (hplain : ∀ command ∈ applied, command.object.swapped = false) : FreshFor applied operation := by
  refine ⟨fun hswap command hmem hobject => ?_, fun interface hdown => absurd hdown (hlink interface)⟩
  have hthis := hplain command hmem
  rw [hobject, ← hs.object, hs.swapped, hswap] at hthis
  cases hthis

/-- Nothing is in the way of an operation that is no swap, but for a second one on its link. -/
theorem freshFor_of_plain {applied : List CommandSpec} (hplain : operation.isSwap = false)
    (hlink : ∀ interface, operation.rollback = .linkDown interface → .linkDown interface ∉ applied) :
    FreshFor applied operation :=
  ⟨fun hswap => absurd (hplain.symm.trans hswap) Bool.false_ne_true, hlink⟩

theorem isLink_of_rollback (hs : Sound b mtu operation) {interface : Bytes}
    (hdown : operation.rollback = .linkDown interface) : operation.apply.object = .link interface := by
  cases hs <;> cases hdown
  rfl

theorem mayPrecede_of_object (hs : Sound b mtu operation)
    (hlink : ∀ interface, operation.apply.object ≠ .link interface) : MayPrecede operation := by
  cases hs with
  | tuntap interface | link interface => exact absurd rfl (hlink interface)
  | _ => exact ⟨nofun, nofun⟩

/-- The swaps that are journaled ahead of their change are not on links. -/
theorem mayPrecede_of_prejournaled (hs : Sound b mtu operation)
    (hpre : prejournaled false operation = true) : MayPrecede operation := by
  refine mayPrecede_of_object hs fun interface hobject => ?_
  cases hs <;> cases hobject <;> cases hpre

theorem planned_of_pairwise {applied : List CommandSpec} {operations : List Operation}
    (hsound : ∀ operation ∈ operations, Sound b mtu operation ∧
      (prejournaled beforeMutation operation = true → MayPrecede operation))
    (hfresh : ∀ operation ∈ operations, FreshFor applied operation)
    (hpair : operations.Pairwise fun first second => FreshFor [first.rollback] second) :
    Planned b mtu beforeMutation applied operations := by
  induction operations generalizing applied with
  | nil => trivial
  | cons operation rest ih =>
      obtain ⟨hthis, hrest⟩ := List.pairwise_cons.mp hpair
      obtain ⟨hs, hprecede⟩ := hsound operation List.mem_cons_self
      refine ⟨⟨hs, hfresh operation List.mem_cons_self, hprecede⟩, ih ?_ ?_ hrest⟩
      · exact fun other hmem => hsound other (List.mem_cons_of_mem _ hmem)
      · intro other hmem
        have hbefore := hfresh other (List.mem_cons_of_mem _ hmem)
        refine ⟨fun hswap command hcommand => ?_, fun interface hdown hcommand => ?_⟩
        · rcases mem_concat.mp hcommand with hcommand | rfl
          · exact hbefore.swap hswap command hcommand
          · exact (hthis other hmem).swap hswap _ List.mem_cons_self
        · rcases mem_concat.mp hcommand with hcommand | hcommand
          · exact hbefore.link interface hdown hcommand
          · exact (hthis other hmem).link interface hdown (hcommand ▸ List.mem_cons_self)

/-- What the operations that are done have added to the list. -/
theorem operationsExit_done {journaled : Bool} {operations : List Operation}
    {applied applied' : List CommandSpec} {h h' : Host}
    (hexit : operationsExit env journaled beforeMutation operations applied h = .done applied' h') :
    applied' = applied ++ operations.map (·.rollback) := by
  induction operations generalizing applied h with
  | nil =>
      cases hexit
      rw [List.map_nil, List.append_nil]
  | cons operation rest ih =>
      unfold operationsExit at hexit
      split at hexit
      · next applied₁ h₁ hone =>
          rw [ih hexit, operationExit_done hone, List.map_cons, List.append_assoc, List.singleton_append]
      · next hnone => exact absurd hexit (hnone _ _)

/-! ## The peer network

The plan in three parts: before the link, the link, and after it. Only the link's rollback takes a link
down.
-/

/-- What would be added is not there. -/
def Absent (h : Host) : Object → Prop
  | .address interface network => h (.address interface network) = false
  | .route interface network => h (.route interface network) = false
  | .table name => h (.table name) = none
  | .record label => h (.record label) = none
  | _ => True

/-- `openresolv` may be the mechanism. -/
def DnsBackend.mayRecord : DnsBackend → Bool
  | .openResolv | .auto _ _ => true
  | _ => false

/-- The label of Peerward's record. -/
def recordLabel (interface : Bytes) : Bytes := interface ++ utf8 ".peerward"

/-- The objects a configuration adds. -/
def LinuxNetworkConfig.additions (config : LinuxNetworkConfig) : List Object :=
  (buildPrepareOperations config ++ nftOperations config (nftTable config.interface)).map (·.apply.object)
    ++ if config.dnsBackend.mayRecord then [.record (recordLabel config.interface)] else []

/-- An operation that adds something or raises a link. -/
theorem prepareOperations_sound {config : LinuxNetworkConfig}
    (habsent : ∀ object ∈ config.additions, Absent b object)
    (hmem : operation ∈ buildPrepareOperations config) :
    Sound b config.mtu operation ∧ operation.isSwap = false := by
  have hthis : Absent b operation.apply.object := by
    refine habsent _ (List.mem_append_left _ (List.mem_map_of_mem (List.mem_append_left _ hmem)))
  simp only [buildPrepareOperations, List.mem_append] at hmem
  rcases hmem with (((hmem | hmem) | hmem) | hmem) | hmem
  · split at hmem
    · cases hmem
    · rw [List.mem_singleton] at hmem
      rw [hmem]
      exact ⟨.tuntap _, rfl⟩
  · simp only [List.mem_cons, List.not_mem_nil, or_false] at hmem
    rcases hmem with rfl | rfl
    · exact ⟨.address _ _ hthis, rfl⟩
    · exact ⟨.link _, rfl⟩
  · obtain ⟨network, -, rfl⟩ := List.mem_map.mp hmem
    exact ⟨.address _ _ hthis, rfl⟩
  · split at hmem
    · rw [List.mem_singleton] at hmem
      subst hmem
      exact ⟨.address _ _ hthis, rfl⟩
    · cases hmem
  · obtain ⟨network, -, rfl⟩ := List.mem_map.mp hmem
    exact ⟨.route _ _ hthis, rfl⟩

theorem nftOperations_sound {config : LinuxNetworkConfig}
    (habsent : ∀ object ∈ config.additions, Absent b object)
    (hmem : operation ∈ nftOperations config (nftTable config.interface)) :
    Sound b config.mtu operation ∧ operation.isSwap = false := by
  have hthis : Absent b operation.apply.object := by
    refine habsent _ (List.mem_append_left _ (List.mem_map_of_mem (List.mem_append_right _ hmem)))
  rw [nftOperations, List.mem_singleton] at hmem
  subst hmem
  exact ⟨.table _ _ hthis, rfl⟩

theorem selectBackend_openResolv {interface : Bytes} {backend : DnsBackend}
    (hselect : selectBackend env h interface backend = .openResolv) : backend.mayRecord = true := by
  cases backend with
  | auto connection resolvConf => rfl
  | openResolv => rfl
  | systemdResolved | networkManager | resolvConf => cases hselect

theorem observe_eq_ok {α : Type} {query : Query} {answer : Except PlatformError α} {a : α}
    (hread : observe env query answer = .ok a) : answer = .ok a := by
  unfold observe at hread
  split at hread
  · cases hread
  · exact hread

theorem required_eq_ok {α : Type} {failure : PlatformError} {value : Option α} {a : α}
    (hread : required failure value = .ok a) : value = some a := by
  unfold required at hread
  split at hread
  · rw [Except.ok.inj hread]
  · cases hread

theorem readResolvConf_eq_ok {path text : Bytes} (hread : readResolvConf h path = .ok text) :
    h (.resolvConf path) = some text := by
  obtain ⟨held, hheld, hread⟩ := bind_eq_ok.mp hread
  obtain ⟨_, _, hread⟩ := bind_eq_ok.mp hread
  rw [required_eq_ok hheld, Except.ok.inj hread]

/-- The resolver is one operation: a swap of what was read, or a new record. -/
theorem dnsOperations_cases {config : LinuxNetworkConfig} {dns : List Operation}
    (hdns : dnsOperations env h config = .ok dns) :
    (∃ original replacement, h (.resolved config.interface) = some original ∧
      dns = [swapOperation (.resolvedReplace config.interface) original replacement]) ∨
    (∃ connection, ∃ original replacement : NetworkManagerDnsState, original.family = replacement.family ∧
      h (.profile connection original.family) = some original.toProfileDns ∧
      dns = [swapOperation (.profileReplace connection) original replacement]) ∨
    (∃ record, config.dnsBackend.mayRecord = true ∧
      dns = [{ apply := .recordAdd (recordLabel config.interface) record,
               rollback := .recordDel (recordLabel config.interface) }]) ∨
    ∃ path original replacement, h (.resolvConf path) = some original ∧
      dns = [swapOperation (.resolvConfReplace path) original replacement] := by
  unfold dnsOperations dnsOperationsScoped at hdns
  dsimp only at hdns
  cases hselect : selectBackend env h config.interface config.dnsBackend with
  | systemdResolved =>
      rw [hselect] at hdns
      obtain ⟨original, hread, hdns⟩ := bind_eq_ok.mp hdns
      obtain ⟨_, _, hread⟩ := bind_eq_ok.mp (observe_eq_ok hread)
      exact .inl ⟨_, _, required_eq_ok hread, (Except.ok.inj hdns).symm⟩
  | networkManager connection =>
      rw [hselect] at hdns
      obtain ⟨oldDns, hread, hdns⟩ := bind_eq_ok.mp hdns
      obtain ⟨state, hstate, hread⟩ := bind_eq_ok.mp (observe_eq_ok hread)
      obtain ⟨oldSearch, hread', hdns⟩ := bind_eq_ok.mp hdns
      obtain ⟨state', hstate', hread'⟩ := bind_eq_ok.mp (observe_eq_ok hread')
      refine .inr (.inl ⟨_, _, _, ?_, ?_, (Except.ok.inj hdns).symm⟩)
      · rfl
      · have hheld := required_eq_ok hstate
        have hheld' := required_eq_ok hstate'
        rw [hheld, Option.some.injEq] at hheld'
        rw [hheld, ← Except.ok.inj hread, ← Except.ok.inj hread', ← hheld']
  | openResolv =>
      rw [hselect] at hdns
      exact .inr (.inr (.inl ⟨_, selectBackend_openResolv hselect, (Except.ok.inj hdns).symm⟩))
  | resolvConf path =>
      rw [hselect] at hdns
      obtain ⟨original, hread, hdns⟩ := bind_eq_ok.mp hdns
      exact .inr (.inr (.inr ⟨_, _, _, readResolvConf_eq_ok (observe_eq_ok hread),
        (Except.ok.inj hdns).symm⟩))
  | auto connection resolvConf =>
      rw [hselect] at hdns
      cases hdns

theorem dnsOperations_sound {config : LinuxNetworkConfig} {dns : List Operation}
    (habsent : ∀ object ∈ config.additions, Absent b object)
    (hsame : ∀ object, object.swapped = true → h object = b object)
    (hdns : dnsOperations env h config = .ok dns) :
    ∃ operation, dns = [operation] ∧ Sound b config.mtu operation ∧
      ∀ interface, operation.rollback ≠ .linkDown interface := by
  rcases dnsOperations_cases hdns with ⟨_, _, hheld, rfl⟩ | ⟨_, _, _, hfamily, hheld, rfl⟩ |
    ⟨record, hmay, rfl⟩ | ⟨_, _, _, hheld, rfl⟩
  · exact ⟨_, rfl, .resolved _ _ _ (by rw [← hsame _ rfl, hheld]), by rintro _ ⟨⟩⟩
  · exact ⟨_, rfl, .profile _ _ _ hfamily (by rw [← hsame _ rfl, hheld]), by rintro _ ⟨⟩⟩
  · refine ⟨_, rfl, .record _ _ (habsent (.record _) (List.mem_append_right _ ?_)), by rintro _ ⟨⟩⟩
    rw [if_pos hmay]
    exact List.mem_singleton_self _
  · exact ⟨_, rfl, .resolvConf _ _ _ (by rw [← hsame _ rfl, hheld]), by rintro _ ⟨⟩⟩

namespace LinuxNetworkConfig

variable (config : LinuxNetworkConfig)

/-- The operations of `prepare` before the link is raised. -/
def beforeLink : List Operation :=
  (if config.interfacePrecreated then []
    else [{ apply := .tuntapAdd config.interface, rollback := .tuntapDel config.interface }])
  ++ [addressOperation config.interface config.address]

def linkOperation : Operation :=
  { apply := .linkUp config.interface config.mtu, rollback := .linkDown config.interface }

/-- The operations of `prepare` after the link is raised. -/
def afterLink : List Operation :=
  config.secondaryAddress.toList.map (addressOperation config.interface)
  ++ (if config.address.addr ≠ config.dnsServer then
      [addressOperation config.interface (hostNet config.dnsServer)] else [])
  ++ config.routes.map (routeOperation config.interface)

theorem buildPrepareOperations_eq :
    buildPrepareOperations config = config.beforeLink ++ config.linkOperation :: config.afterLink := by
  simp [buildPrepareOperations, beforeLink, linkOperation, afterLink]

variable {config}

theorem beforeLink_cases (hmem : operation ∈ config.beforeLink) :
    operation = { apply := .tuntapAdd config.interface, rollback := .tuntapDel config.interface } ∨
      operation = addressOperation config.interface config.address := by
  rcases List.mem_append.mp hmem with hmem | hmem
  · split at hmem
    · cases hmem
    · exact .inl (List.mem_singleton.mp hmem)
  · exact .inr (List.mem_singleton.mp hmem)

/-- After the link there are addresses and routes. -/
theorem afterLink_cases (hmem : operation ∈ config.afterLink) :
    (∃ network, operation = addressOperation config.interface network ∧
      (config.secondaryAddress = some network ∨
        config.address.addr ≠ config.dnsServer ∧ network = hostNet config.dnsServer)) ∨
      ∃ network, operation = routeOperation config.interface network := by
  rcases List.mem_append.mp hmem with hmem | hmem
  · rcases List.mem_append.mp hmem with hmem | hmem
    · obtain ⟨network, hsome, rfl⟩ := List.mem_map.mp hmem
      exact .inl ⟨network, rfl, .inl (Option.mem_toList.mp hsome)⟩
    · split at hmem
      · next hne => exact .inl ⟨_, List.mem_singleton.mp hmem, .inr ⟨hne, rfl⟩⟩
      · cases hmem
  · obtain ⟨network, -, rfl⟩ := List.mem_map.mp hmem
    exact .inr ⟨network, rfl⟩

theorem beforeLink_ne (hmem : operation ∈ config.beforeLink) (interface : Bytes) :
    operation.rollback ≠ .linkDown interface := by
  rcases beforeLink_cases hmem with rfl | rfl <;> rintro ⟨⟩

theorem afterLink_ne (hmem : operation ∈ config.afterLink) (interface : Bytes) :
    operation.rollback ≠ .linkDown interface := by
  rcases afterLink_cases hmem with ⟨network, rfl, -⟩ | ⟨network, rfl⟩ <;> rintro ⟨⟩

end LinuxNetworkConfig

theorem prepareOperations_planned {config : LinuxNetworkConfig}
    (habsent : ∀ object ∈ config.additions, Absent b object) :
    Planned b config.mtu false [] (buildPrepareOperations config) := by
  refine planned_of_pairwise (fun operation hmem => ?_) (fun _ _ => freshFor_nil) ?_
  · obtain ⟨hs, -⟩ := prepareOperations_sound habsent hmem
    exact ⟨hs, mayPrecede_of_prejournaled hs⟩
  -- Of two operations, one at most is on the link.
  have hfresh : ∀ first : Operation, ∀ second ∈ buildPrepareOperations config,
      (∀ interface, first.rollback ≠ .linkDown interface) ∨
        (∀ interface, second.rollback ≠ .linkDown interface) → FreshFor [first.rollback] second := by
    intro first second hsecond hlink
    refine freshFor_of_plain (prepareOperations_sound habsent hsecond).2 fun interface hdown hmem => ?_
    rcases hlink with hlink | hlink
    · exact hlink interface (List.mem_singleton.mp hmem).symm
    · exact hlink interface hdown
  rw [config.buildPrepareOperations_eq] at hfresh ⊢
  have hbefore : ∀ operation ∈ config.beforeLink,
      operation ∈ config.beforeLink ++ config.linkOperation :: config.afterLink :=
    fun _ hmem => List.mem_append_left _ hmem
  have hafter : ∀ operation ∈ config.afterLink,
      operation ∈ config.beforeLink ++ config.linkOperation :: config.afterLink :=
    fun _ hmem => List.mem_append_right _ (List.mem_cons_of_mem _ hmem)
  refine List.pairwise_append.mpr ⟨?_, List.pairwise_cons.mpr ⟨?_, ?_⟩, ?_⟩
  · exact List.pairwise_of_forall_mem_list fun first hfirst second hsecond =>
      hfresh first second (hbefore _ hsecond) (.inl (LinuxNetworkConfig.beforeLink_ne hfirst))
  · exact fun second hsecond => hfresh _ second (hafter _ hsecond)
      (.inr (LinuxNetworkConfig.afterLink_ne hsecond))
  · exact List.pairwise_of_forall_mem_list fun first hfirst second hsecond =>
      hfresh first second (hafter _ hsecond) (.inl (LinuxNetworkConfig.afterLink_ne hfirst))
  · exact fun first hfirst second hsecond => hfresh first second (List.mem_append_right _ hsecond)
      (.inl (LinuxNetworkConfig.beforeLink_ne hfirst))

theorem activateOperations_planned {config : LinuxNetworkConfig} {dns : List Operation}
    (habsent : ∀ object ∈ config.additions, Absent b object)
    (hsame : ∀ object, object.swapped = true → h object = b object)
    (hdns : dnsOperations env h config = .ok dns) :
    Planned b config.mtu false ((buildPrepareOperations config).map (·.rollback))
      (nftOperations config (nftTable config.interface) ++ dns) := by
  obtain ⟨resolver, rfl, hresolver, hplainLink⟩ := dnsOperations_sound habsent hsame hdns
  have hsound : ∀ operation ∈ nftOperations config (nftTable config.interface) ++ [resolver],
      Sound b config.mtu operation ∧ ∀ interface, operation.rollback ≠ .linkDown interface := by
    intro operation hmem
    rcases List.mem_append.mp hmem with hmem | hmem
    · refine ⟨(nftOperations_sound habsent hmem).1, fun interface => ?_⟩
      rw [nftOperations, List.mem_singleton] at hmem
      subst hmem
      rintro ⟨⟩
    · rw [List.mem_singleton.mp hmem]
      exact ⟨hresolver, hplainLink⟩
  refine planned_of_pairwise (fun operation hmem => ?_) (fun operation hmem => ?_) ?_
  · exact ⟨(hsound operation hmem).1, mayPrecede_of_prejournaled (hsound operation hmem).1⟩
  · refine freshFor_of_swapped (hsound operation hmem).1 (hsound operation hmem).2 fun command hcommand => ?_
    obtain ⟨prepared, hprepared, rfl⟩ := List.mem_map.mp hcommand
    obtain ⟨hs, hplain⟩ := prepareOperations_sound habsent hprepared
    rw [hs.swapped, hplain]
  · rw [nftOperations, List.singleton_append, List.pairwise_cons]
    refine ⟨fun operation hmem => ?_, List.pairwise_singleton _ _⟩
    rw [List.mem_singleton.mp hmem]
    refine freshFor_of_swapped hresolver hplainLink fun command hcommand => ?_
    rw [List.mem_singleton.mp hcommand]
    rfl

/-! ## Shared resources

At most one swap of each setting, whatever is read, and different settings are different objects.
-/

/-- The objects an intent adds. -/
def ResourceNetworkIntent.additions (intent : ResourceNetworkIntent) : List Object :=
  .table (resourceTable intent.interface)
    :: intent.acceptedRoutes.map fun network => .route intent.interface network.trunc

/-- At most one swap, of this object. -/
def SwapsOnly (b : Host) (mtu : Nat) (object : Object) (operations : List Operation) : Prop :=
  operations = [] ∨ ∃ operation, operations = [operation] ∧ Sound b mtu operation ∧
    operation.apply.object = object

theorem acceptRaOperations_swaps {interface : Bytes} {operations : List Operation}
    (hread : acceptRaOperations env b interface = .ok operations) :
    SwapsOnly b mtu (.acceptRa interface) operations := by
  obtain ⟨previous, hprevious, hread⟩ := bind_eq_ok.mp hread
  split at hread
  · next hone =>
      obtain ⟨_, hsafe, hprevious⟩ := bind_eq_ok.mp (observe_eq_ok hprevious)
      refine .inr ⟨_, (Except.ok.inj hread).symm, .acceptRa _ _ _ ?_ ?_, rfl⟩
      · simpa using rejectIf_eq_ok.mp hsafe
      · rw [← hone]
        exact required_eq_ok hprevious
  · obtain ⟨_, _, hread⟩ := bind_eq_ok.mp hread
    exact .inl (Except.ok.inj hread).symm

theorem forwardingOperations_swaps {family : AddressFamily} {operations : List Operation}
    (hread : forwardingOperations env b family = .ok operations) :
    SwapsOnly b mtu (.forwarding family) operations := by
  obtain ⟨previous, hprevious, hread⟩ := bind_eq_ok.mp hread
  split at hread
  · exact .inl (Except.ok.inj hread).symm
  · obtain ⟨_, hzero, hread⟩ := bind_eq_ok.mp hread
    refine .inr ⟨_, (Except.ok.inj hread).symm, .forwarding _ _ _ ?_, rfl⟩
    rw [Except.ok.inj (observe_eq_ok hprevious)]
    simpa using rejectIf_eq_ok.mp hzero

theorem SwapsOnly.mem {object : Object} {operations : List Operation}
    (hs : SwapsOnly b mtu object operations) (hmem : operation ∈ operations) :
    Sound b mtu operation ∧ operation.apply.object = object := by
  rcases hs with rfl | ⟨only, rfl, hsound, hobject⟩
  · cases hmem
  · rw [List.mem_singleton.mp hmem]
    exact ⟨hsound, hobject⟩

section Families

variable {κ : Type} {object : κ → Object} {keys : List κ} {results : List (List Operation)}

theorem swaps_mem (hswaps : List.Forall₂ (fun key => SwapsOnly b mtu (object key)) keys results)
    (hmem : operation ∈ results.flatten) :
    Sound b mtu operation ∧ ∃ key ∈ keys, operation.apply.object = object key := by
  induction hswaps with
  | nil => cases hmem
  | cons hthis _ ih =>
      rw [List.flatten_cons, List.mem_append] at hmem
      rcases hmem with hmem | hmem
      · exact ⟨(hthis.mem hmem).1, _, List.mem_cons_self, (hthis.mem hmem).2⟩
      · obtain ⟨hsound, key, hkey, hobject⟩ := ih hmem
        exact ⟨hsound, key, List.mem_cons_of_mem _ hkey, hobject⟩

/-- Swaps of different objects do not meet. -/
theorem swaps_pairwise (hinjective : Function.Injective object)
    (hobjects : ∀ key interface, object key ≠ .link interface) (hnodup : keys.Nodup)
    (hswaps : List.Forall₂ (fun key => SwapsOnly b mtu (object key)) keys results) :
    results.flatten.Pairwise fun first second => FreshFor [first.rollback] second := by
  induction hswaps with
  | nil => exact .nil
  | @cons key operations keys results hthis hrest ih =>
      obtain ⟨hnot, hnodup⟩ := List.nodup_cons.mp hnodup
      rw [List.flatten_cons, List.pairwise_append]
      refine ⟨?_, ih hnodup, fun first hfirst second hsecond => ?_⟩
      · rcases hthis with rfl | ⟨only, rfl, -⟩
        · exact .nil
        · exact List.pairwise_singleton _ _
      obtain ⟨hsound, hfirst⟩ := hthis.mem hfirst
      obtain ⟨hsecondSound, other, hother, hsecond⟩ := swaps_mem hrest hsecond
      refine ⟨fun _ command hcommand hobject => ?_, fun interface hdown => ?_⟩
      · rw [List.mem_singleton.mp hcommand, hsound.object, hfirst, hsecond] at hobject
        exact hnot (hinjective hobject ▸ hother)
      · exact absurd (hsecond.symm.trans (isLink_of_rollback hsecondSound hdown)) (hobjects other interface)

end Families

theorem nodup_raInterfaces (intent : ResourceNetworkIntent) (routes : List HostRoute) :
    (raInterfaces intent routes).Nodup :=
  (List.perm_insertionSort _ _).nodup_iff.mpr (List.nodup_dedup _)

theorem nodup_gatewayFamilies (intent : ResourceNetworkIntent) : (gatewayFamilies intent).Nodup := by
  unfold gatewayFamilies
  split <;> split <;> decide

section Resources

variable {intent : ResourceNetworkIntent} {routes : List HostRoute} {operations : List Operation}

variable (mtu) in
/-- The operations of shared resources, part by part. -/
theorem resourceOperations_eq_ok (hread : resourceOperations env b intent routes = .ok operations) :
    ∃ keys ra forwarding, keys.Nodup ∧
      List.Forall₂ (fun interface => SwapsOnly b mtu (.acceptRa interface)) keys ra ∧
      List.Forall₂ (fun family => SwapsOnly b mtu (.forwarding family)) (gatewayFamilies intent) forwarding ∧
      operations = nftOperation (resourceTable intent.interface) (resourceNft intent) :: (ra.flatten ++
        (forwarding.flatten ++ intent.acceptedRoutes.map (routeOperation intent.interface))) := by
  unfold resourceOperations at hread
  dsimp only at hread
  obtain ⟨ra, hra, hread⟩ := bind_eq_ok.mp hread
  obtain ⟨forwarding, hforwarding, hread⟩ := bind_eq_ok.mp hread
  refine ⟨_, ra, forwarding, ?_, (forall₂_of_mapM hra).imp fun _ _ h => acceptRaOperations_swaps h,
    (forall₂_of_mapM hforwarding).imp fun _ _ h => forwardingOperations_swaps h, ?_⟩
  · split
    · exact nodup_raInterfaces intent routes
    · exact List.nodup_nil
  · rw [← Except.ok.inj hread, List.append_assoc, List.append_assoc, List.singleton_append]

variable (mtu) in
theorem acceptedRoutes_sound (habsent : ∀ object ∈ intent.additions, Absent b object)
    (hmem : operation ∈ intent.acceptedRoutes.map (routeOperation intent.interface)) :
    Sound b mtu operation ∧ operation.isSwap = false ∧
      ∃ network, operation.apply.object = .route intent.interface network := by
  obtain ⟨network, hnetwork, rfl⟩ := List.mem_map.mp hmem
  exact ⟨.route _ _ (habsent _ (List.mem_cons_of_mem _ (List.mem_map_of_mem hnetwork))), rfl, _, rfl⟩

variable (mtu) in
/-- None of them is on a link. -/
theorem resourceOperations_sound (habsent : ∀ object ∈ intent.additions, Absent b object)
    (hread : resourceOperations env b intent routes = .ok operations) (hmem : operation ∈ operations) :
    Sound b mtu operation ∧ ∀ interface, operation.apply.object ≠ .link interface := by
  obtain ⟨keys, ra, forwarding, -, hra, hforwarding, rfl⟩ := resourceOperations_eq_ok mtu hread
  simp only [List.mem_cons, List.mem_append] at hmem
  rcases hmem with rfl | hmem | hmem | hmem
  · exact ⟨.table _ _ (habsent _ List.mem_cons_self), by rintro _ ⟨⟩⟩
  · obtain ⟨hs, key, -, hobject⟩ := swaps_mem hra hmem
    exact ⟨hs, fun _ h => by rw [hobject] at h; cases h⟩
  · obtain ⟨hs, key, -, hobject⟩ := swaps_mem hforwarding hmem
    exact ⟨hs, fun _ h => by rw [hobject] at h; cases h⟩
  · obtain ⟨hs, -, _, hobject⟩ := acceptedRoutes_sound mtu habsent hmem
    exact ⟨hs, fun _ h => by rw [hobject] at h; cases h⟩

theorem resourceOperations_planned (habsent : ∀ object ∈ intent.additions, Absent b object)
    (hread : resourceOperations env b intent routes = .ok operations) :
    Planned b mtu true [] operations := by
  have hall : ∀ operation ∈ operations, Sound b mtu operation ∧
      ∀ interface, operation.apply.object ≠ .link interface :=
    fun _ => resourceOperations_sound mtu habsent hread
  refine planned_of_pairwise (fun operation hmem => ?_) (fun _ _ => freshFor_nil) ?_
  · exact ⟨(hall operation hmem).1, fun _ => mayPrecede_of_object (hall operation hmem).1 (hall operation hmem).2⟩
  · obtain ⟨keys, ra, forwarding, hkeys, hraSwaps, hforwardingSwaps, rfl⟩ :=
      resourceOperations_eq_ok mtu hread
    rw [List.pairwise_cons, List.pairwise_append, List.pairwise_append]
    have hrouteFresh : ∀ first : Operation, ∀ second ∈ intent.acceptedRoutes.map (routeOperation intent.interface),
        FreshFor [first.rollback] second := by
      intro first second hsecond
      obtain ⟨hs, hplain, network, hobject⟩ := acceptedRoutes_sound mtu habsent hsecond
      refine freshFor_of_plain hplain fun interface hdown => ?_
      exact absurd (hobject.symm.trans (isLink_of_rollback hs hdown)) (by rintro ⟨⟩)
    refine ⟨fun second hsecond => ?_,
      swaps_pairwise (fun _ _ h => by cases h; rfl) (by rintro _ _ ⟨⟩) hkeys hraSwaps,
      ⟨swaps_pairwise (fun _ _ h => by cases h; rfl) (by rintro _ _ ⟨⟩) (nodup_gatewayFamilies intent)
          hforwardingSwaps,
        List.pairwise_of_forall_mem_list fun first _ second hsecond => hrouteFresh first second hsecond,
        fun first _ second hsecond => hrouteFresh first second hsecond⟩,
      fun first hfirst second hsecond => ?_⟩
    · obtain ⟨hs, hobject⟩ := hall second (List.mem_cons_of_mem _ hsecond)
      refine freshFor_of_swapped hs (fun interface hdown => hobject interface (isLink_of_rollback hs hdown))
        fun command hcommand => ?_
      rw [List.mem_singleton.mp hcommand]
      rfl
    · obtain ⟨hs, _, -, hfirst⟩ := swaps_mem hraSwaps hfirst
      rcases List.mem_append.mp hsecond with hsecond | hsecond
      · obtain ⟨hsecondSound, _, -, hsecond⟩ := swaps_mem hforwardingSwaps hsecond
        refine ⟨fun _ command hcommand hobject => ?_, fun interface hdown => ?_⟩
        · rw [List.mem_singleton.mp hcommand, hs.object, hfirst, hsecond] at hobject
          cases hobject
        · exact absurd (hsecond.symm.trans (isLink_of_rollback hsecondSound hdown)) (by rintro ⟨⟩)
      · exact hrouteFresh first second hsecond

end Resources

end Peerward.Platform
