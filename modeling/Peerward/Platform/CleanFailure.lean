import Peerward.Platform.Calls

/-!
# What a failed call leaves

A call that returns an error has met a first failure: a command, a read of the host or a write of the
journal. Which one says whether the host is as it was before, whatever failed afterwards. Most failures are
answered with a rollback; a read of the resolver, a journal write ahead of a change and the journal write
of `commit` are not, and what was applied stays, with the list and the file. And a link that a rollback
takes down is down, with the MTU that it was given and with nothing on it, whatever it was before.
-/

namespace Peerward.Platform

open Peerward.Lib Peerward.Net Durable

variable {env : Environment} {b : Host} {mtu : Nat} {s t : Machine} {interface : Bytes}
  {applied : List CommandSpec} {operation : Operation} {beforeMutation : Bool} {intent : Intent}

/-! ## Links that go down

Every rollback but one leads back to the host before. The one of a link leads to a link that is down, so
it leads back where the link was down to begin with.
-/

/-- A link that is down, with this MTU and without what goes when a link goes down. -/
structure Bare (b : Host) (mtu : Nat) (interface : Bytes) : Prop where
  link : b (.link interface) = some { up := false, mtu }
  addresses : ∀ network, network.addr.isIpv4 = false → b (.address interface network) = false
  routes : ∀ network, b (.route interface network) = false

theorem under_route (interface : Bytes) (network : IpNet) :
    (Object.route interface network).under interface = true := decide_eq_true rfl

theorem under_address (interface : Bytes) {network : IpNet} (h : network.addr.isIpv4 = false) :
    (Object.address interface network).under interface = true := by
  simp [Object.under, h]

theorem down_eq_self : b.down interface mtu = b ↔ Bare b mtu interface := by
  constructor
  · intro hsame
    refine ⟨?_, fun network hfamily => ?_, fun network => ?_⟩
    · rw [← hsame]
      exact if_pos rfl
    · rw [← hsame]
      show (_ && !_) = false
      rw [under_address interface hfamily, Bool.not_true, Bool.and_false]
    · rw [← hsame]
      show (_ && !_) = false
      rw [under_route, Bool.not_true, Bool.and_false]
  · intro hbare
    funext object
    cases hunder : object.under interface with
    | false => exact Host.down_of_not_under hunder
    | true =>
        cases object with
        | link other =>
            cases of_decide_eq_true hunder
            exact (if_pos rfl).trans hbare.link.symm
        | address other network =>
            rw [Object.under, Bool.and_eq_true, decide_eq_true_eq, Bool.not_eq_true'] at hunder
            obtain ⟨rfl, hfamily⟩ := hunder
            show (b (.address other network) && _) = b (.address other network)
            rw [hbare.addresses network hfamily, Bool.false_and]
        | route other network =>
            cases of_decide_eq_true hunder
            show (b (.route interface network) && _) = b (.route interface network)
            rw [hbare.routes network, Bool.false_and]
        | _ => cases hunder

/-- An object goes with one link only. -/
theorem under_inj {object : Object} {other : Bytes} (h : object.under interface = true)
    (h' : object.under other = true) : interface = other := by
  cases object <;> simp_all [Object.under]

theorem settledAll_under {object : Object} (hmem : .linkDown interface ∈ applied)
    (hunder : object.under interface = true) :
    settledAll b mtu applied object = b.down interface mtu object := by
  induction applied with
  | nil => cases hmem
  | cons command applied ih =>
      rw [settledAll, settled]
      by_cases hdown : ∃ other, command = .linkDown other
      · obtain ⟨other, rfl⟩ := hdown
        show Host.down _ other mtu object = _
        cases hother : object.under other with
        | true =>
            rw [under_inj hunder hother]
            exact Host.down_of_under hother
        | false =>
            rw [Host.down_of_not_under hother]
            refine ih ((List.mem_cons.mp hmem).resolve_left fun hsame => ?_)
            cases hsame
            rw [hunder] at hother
            cases hother
      · have hdown' := fun other h => hdown ⟨other, h⟩
        rw [← settled, settled_of_ne hdown']
        exact ih ((List.mem_cons.mp hmem).resolve_left fun hsame => hdown' _ hsame.symm)

/-- Taking everything back leads to `b` where the links that go down were bare. -/
theorem settledAll_eq_self :
    settledAll b mtu applied = b ↔ ∀ interface, .linkDown interface ∈ applied → Bare b mtu interface := by
  constructor
  · intro hsame interface hmem
    refine down_eq_self.mp (funext fun object => ?_)
    cases hunder : object.under interface with
    | true => rw [← settledAll_under hmem hunder, hsame]
    | false => exact Host.down_of_not_under hunder
  · intro hbare
    induction applied with
    | nil => rfl
    | cons command applied ih =>
        rw [settledAll, ih fun interface hmem => hbare interface (List.mem_cons_of_mem _ hmem)]
        by_cases hdown : ∃ interface, command = .linkDown interface
        · obtain ⟨interface, rfl⟩ := hdown
          exact down_eq_self.mpr (hbare interface List.mem_cons_self)
        · exact settled_of_ne fun interface h => hdown ⟨interface, h⟩

/-! ## The failures that are answered

What is said here of a failure only looks at the intent and at the failure: at its command, or at the phase
and the list of the journal that could not be written.
-/

/-- A swap of host DNS, whose rollback is listed ahead of it. -/
def CommandSpec.isResolver : CommandSpec → Bool
  | .resolvConfReplace _ _ | .resolvedReplace _ _ | .profileReplace _ _ => true
  | _ => false

namespace Intent

/-- A failure that is answered with a rollback, or comes before anything is applied. -/
def answers (intent : Intent) : Failure → Bool
  | .command _ => true
  | .read => match intent with
    | .network _ => false
    | .resources _ _ => true
  | .journal journal => match journal.phase, intent with
    | .rollingBack, _ => true
    | .active, _ => false
    | .prepared, .network _ => !journal.rollback.getLast?.any CommandSpec.isResolver
    | .prepared, .resources _ _ => journal.rollback.length = 1

/-- A failure that comes after the link has been raised. -/
def raisedBefore : Intent → Failure → Bool
  | .network config, .command command =>
    !(config.beforeLink ++ [config.linkOperation]).any fun operation => operation.apply = command
  | .network config, .journal journal =>
    journal.phase ≠ .rollingBack && journal.rollback.contains (.linkDown config.interface)
  | _, _ => false

/-- A failure that leaves nothing behind on a host. -/
def LeavesNothing (intent : Intent) (b : Host) (failure : Failure) : Prop :=
  intent.answers failure = true ∧
    (intent.raisedBefore failure = true → Bare b intent.mtu intent.interface)

end Intent

/-- The failure of a call says what its rollbacks are. -/
def Exit.Fits (intent : Intent) : Exit → Prop
  | .done _ _ => True
  | .rolledBack applied failure => intent.answers failure = true ∧
      ∀ interface, .linkDown interface ∈ applied ↔
        interface = intent.interface ∧ intent.raisedBefore failure = true
  | .abandoned applied failure => (intent.answers failure = true ↔ applied = []) ∧
      (applied = [] → intent.raisedBefore failure = false)

/-! ## One operation after the other

A call meets its failure at some operation of a plan. What the failure says has to agree with the list at
that moment, so `Placed` is said of an operation with the list before it.
-/

/-- An operation whose failures fit, when its turn comes. -/
structure Placed (intent : Intent) (beforeMutation : Bool) (applied : List CommandSpec)
    (operation : Operation) : Prop where
  links : ∀ interface, .linkDown interface ∈ applied ↔
    interface = intent.interface ∧ intent.raisedBefore (.command operation.apply) = true
  listed : ∀ interface, .linkDown interface ∈ applied ++ [operation.rollback] ↔ interface = intent.interface ∧
    intent.raisedBefore (.journal (journalOf .prepared (applied ++ [operation.rollback]))) = true
  ahead : prejournaled beforeMutation operation = true →
    (∀ interface, operation.rollback ≠ .linkDown interface) ∧
      (intent.answers (.journal (journalOf .prepared (applied ++ [operation.rollback]))) = true ↔
        applied = [])
  behind : prejournaled beforeMutation operation = false →
    intent.answers (.journal (journalOf .prepared (applied ++ [operation.rollback]))) = true

theorem Placed.fits {journaled : Bool} {h : Host} (hplaced : Placed intent beforeMutation applied operation) :
    (operationExit env journaled beforeMutation operation applied h).Fits intent := by
  unfold operationExit
  dsimp only
  cases hpre : prejournaled beforeMutation operation with
  | true =>
      obtain ⟨hlink, hanswers⟩ := hplaced.ahead hpre
      have hsame : ∀ interface, .linkDown interface ∈ applied ++ [operation.rollback] ↔
          .linkDown interface ∈ applied := by
        intro interface
        rw [mem_concat]
        exact or_iff_left fun hdown => hlink interface hdown.symm
      rw [if_pos rfl]
      split
      · refine ⟨hanswers, fun hempty => Bool.eq_false_iff.mpr fun hraised => ?_⟩
        have hmem := (hsame _).mp ((hplaced.listed _).mpr ⟨rfl, hraised⟩)
        rw [hempty] at hmem
        cases hmem
      split
      · exact ⟨rfl, fun interface => (hsame interface).trans (hplaced.links interface)⟩
      · trivial
  | false =>
      rw [if_neg Bool.false_ne_true]
      split
      · exact ⟨rfl, hplaced.links⟩
      split
      · exact ⟨hplaced.behind hpre, hplaced.listed⟩
      · trivial

/-- Every operation is placed when its turn comes. -/
def PlacedAll (intent : Intent) (beforeMutation : Bool) : List CommandSpec → List Operation → Prop
  | _, [] => True
  | applied, operation :: rest => Placed intent beforeMutation applied operation ∧
      PlacedAll intent beforeMutation (applied ++ [operation.rollback]) rest

theorem placedAll_append {front back : List Operation} :
    PlacedAll intent beforeMutation applied (front ++ back) ↔
      PlacedAll intent beforeMutation applied front ∧
        PlacedAll intent beforeMutation (applied ++ front.map (·.rollback)) back := by
  induction front generalizing applied with
  | nil =>
      rw [List.nil_append, List.map_nil, List.append_nil]
      exact (and_iff_right trivial).symm
  | cons operation front ih =>
      rw [List.cons_append, PlacedAll, PlacedAll, ih, and_assoc, List.map_cons, List.append_assoc,
        List.singleton_append]

theorem PlacedAll.fits {journaled : Bool} {operations : List Operation} {h : Host}
    (hplaced : PlacedAll intent beforeMutation applied operations) :
    (operationsExit env journaled beforeMutation operations applied h).Fits intent := by
  induction operations generalizing applied h with
  | nil => trivial
  | cons operation rest ih =>
      obtain ⟨hthis, hrest⟩ := hplaced
      have hfits : (operationExit env journaled beforeMutation operation applied h).Fits intent := hthis.fits
      unfold operationsExit
      split
      · next applied' h' hdone =>
          rw [operationExit_done hdone]
          exact ih hrest
      · exact hfits

/-- What follows the operations fits as well. -/
theorem fits_next {journaled : Bool} {operations : List Operation} {h : Host}
    {f : List CommandSpec → Host → Exit} (hplaced : PlacedAll intent beforeMutation applied operations)
    (hnext : ∀ h', (f (applied ++ operations.map (·.rollback)) h').Fits intent) :
    ((operationsExit env journaled beforeMutation operations applied h).next f).Fits intent := by
  have hfits : (operationsExit env journaled beforeMutation operations applied h).Fits intent := hplaced.fits
  cases hexit : operationsExit env journaled beforeMutation operations applied h with
  | done applied' h' =>
      rw [operationsExit_done hexit]
      exact hnext h'
  | rolledBack applied' failure | abandoned applied' failure =>
      rw [hexit] at hfits
      exact hfits

/-- `commit` saves a list that is not empty. -/
theorem fits_commitExit {journaled : Bool} {h : Host} :
    (commitExit env journaled applied h).Fits intent := by
  unfold commitExit
  split
  · next hfails =>
      rw [Bool.and_eq_true, Bool.not_eq_true', List.isEmpty_eq_false_iff] at hfails
      have hnot : intent.answers (.journal (journalOf .active applied)) = false := by
        cases intent <;> rfl
      refine ⟨iff_of_false ?_ hfails.1, fun hempty => absurd hempty hfails.1⟩
      rw [hnot]
      exact Bool.false_ne_true
  · trivial

/-! ## The two kinds of intent

In a network plan one operation raises the link, and nothing else is on it; everything before it fails
without a link to take down and everything after it with one. Shared resources are on no link.
-/

/-- Operations that are all before the link, or all after it. -/
theorem placedAll_network {config : LinuxNetworkConfig} (raised : Bool) {operations : List Operation}
    (happlied : ∀ interface, .linkDown interface ∈ applied ↔ interface = config.interface ∧ raised = true)
    (hlinks : ∀ operation ∈ operations, ∀ interface, operation.rollback ≠ .linkDown interface)
    (hraised : ∀ operation ∈ operations,
      (Intent.network config).raisedBefore (.command operation.apply) = raised)
    (hahead : ∀ operation ∈ operations, prejournaled false operation = operation.rollback.isResolver ∧
      (operation.rollback.isResolver = true → raised = true)) :
    PlacedAll (.network config) false applied operations := by
  induction operations generalizing applied with
  | nil => trivial
  | cons operation rest ih =>
      rw [List.forall_mem_cons] at hlinks hraised hahead
      have hlisted : ∀ interface, .linkDown interface ∈ applied ++ [operation.rollback] ↔
          interface = config.interface ∧ raised = true := by
        intro interface
        rw [mem_concat, or_iff_left fun hdown => hlinks.1 interface hdown.symm]
        exact happlied interface
      have hanswers : (Intent.network config).answers
          (.journal (journalOf .prepared (applied ++ [operation.rollback]))) =
            !operation.rollback.isResolver := by
        show (!(applied ++ [operation.rollback]).getLast?.any CommandSpec.isResolver) = _
        rw [List.getLast?_concat]
        rfl
      refine ⟨⟨fun interface => ?_, fun interface => ?_, fun hpre => ⟨hlinks.1, ?_⟩, fun hpre => ?_⟩,
        ih hlisted hlinks.2 hraised.2 hahead.2⟩
      · rw [hraised.1]
        exact happlied interface
      · rw [hlisted interface]
        refine and_congr_right fun _ => ?_
        show _ ↔ (true && (applied ++ [operation.rollback]).contains (.linkDown config.interface)) = true
        rw [Bool.true_and, List.contains_iff_mem, hlisted config.interface]
        exact (and_iff_right rfl).symm
      · rw [hanswers, ← hahead.1.1, hpre]
        refine iff_of_false Bool.false_ne_true fun hempty => ?_
        have hmem := (happlied config.interface).mpr ⟨rfl, hahead.1.2 (hahead.1.1 ▸ hpre)⟩
        rw [hempty] at hmem
        cases hmem
      · rw [hanswers, ← hahead.1.1, hpre]
        rfl

theorem raisedBefore_of_ne {config : LinuxNetworkConfig} {command : CommandSpec}
    (htuntap : command ≠ .tuntapAdd config.interface)
    (haddress : command ≠ .addressAdd config.address config.interface)
    (hlink : command ≠ .linkUp config.interface config.mtu) :
    (Intent.network config).raisedBefore (.command command) = true := by
  show (!(config.beforeLink ++ [config.linkOperation]).any _) = true
  rw [Bool.not_eq_true', List.any_eq_false]
  intro operation hmem
  rw [decide_eq_true_eq]
  rcases List.mem_append.mp hmem with hmem | hmem
  · rcases LinuxNetworkConfig.beforeLink_cases hmem with rfl | rfl
    · exact htuntap.symm
    · exact haddress.symm
  · rw [List.mem_singleton.mp hmem]
    exact hlink.symm

theorem not_raisedBefore_of_mem {config : LinuxNetworkConfig}
    (hmem : operation ∈ config.beforeLink ++ [config.linkOperation]) :
    (Intent.network config).raisedBefore (.command operation.apply) = false := by
  show (!(config.beforeLink ++ [config.linkOperation]).any _) = false
  rw [Bool.not_eq_false', List.any_eq_true]
  exact ⟨operation, hmem, decide_eq_true rfl⟩

/-- The second address of a valid configuration is of the other family. -/
theorem secondaryAddress_ne {config : LinuxNetworkConfig} {network : IpNet}
    (hvalid : validateConfig config = .ok ()) (hsecondary : config.secondaryAddress = some network) :
    network ≠ config.address := by
  rintro rfl
  obtain ⟨_, hfirst, -⟩ := bind_eq_ok.mp hvalid
  replace hfirst := rejectIf_eq_ok.mp hfirst
  simp only [Bool.or_eq_false_iff, Bool.not_eq_false', validAssignments, Bool.not_eq_true',
    hsecondary] at hfirst
  simp at hfirst

theorem hostNet_addr (address : IpAddr) : (hostNet address).addr = address := by
  cases address <;> rfl

theorem placedAll_prepare {config : LinuxNetworkConfig} (hvalid : validateConfig config = .ok ()) :
    PlacedAll (.network config) false [] (buildPrepareOperations config) := by
  rw [config.buildPrepareOperations_eq]
  have hbefore : ∀ interface, .linkDown interface ∈ config.beforeLink.map (·.rollback) ↔
      interface = config.interface ∧ false = true := by
    refine fun interface => iff_of_false (fun hmem => ?_) (fun h => Bool.false_ne_true h.2)
    obtain ⟨operation, hoperation, hdown⟩ := List.mem_map.mp hmem
    exact LinuxNetworkConfig.beforeLink_ne hoperation interface hdown
  have hafter : ∀ interface, .linkDown interface ∈
      [] ++ config.beforeLink.map (·.rollback) ++ [config.linkOperation.rollback] ↔
        interface = config.interface ∧ true = true := by
    intro interface
    rw [List.nil_append, mem_concat, hbefore, LinuxNetworkConfig.linkOperation]
    simp
  refine placedAll_append.mpr ⟨placedAll_network false (by simp)
    (fun _ hmem => LinuxNetworkConfig.beforeLink_ne hmem)
    (fun _ hmem => not_raisedBefore_of_mem (List.mem_append_left _ hmem)) fun operation hmem => ?_, ?_, ?_⟩
  · rcases LinuxNetworkConfig.beforeLink_cases hmem with rfl | rfl <;> exact ⟨rfl, by rintro ⟨⟩⟩
  · have hcommand : (Intent.network config).raisedBefore (.command config.linkOperation.apply) = false :=
      not_raisedBefore_of_mem (List.mem_append_right _ (List.mem_singleton_self _))
    refine ⟨fun interface => ?_, fun interface => ?_, by rintro ⟨⟩, fun _ => ?_⟩
    · rw [hcommand, List.nil_append]
      exact hbefore interface
    · rw [hafter interface]
      refine and_congr_right fun _ => ?_
      show _ ↔ (true && ([] ++ config.beforeLink.map Operation.rollback ++
        [config.linkOperation.rollback]).contains (.linkDown config.interface)) = true
      rw [Bool.true_and, List.contains_iff_mem, hafter config.interface]
      exact (and_iff_right rfl).symm
    · show (!(_ ++ [config.linkOperation.rollback]).getLast?.any CommandSpec.isResolver) = true
      rw [List.getLast?_concat]
      rfl
  · refine placedAll_network true hafter (fun _ hmem => LinuxNetworkConfig.afterLink_ne hmem)
      (fun operation hmem => ?_) fun operation hmem => ?_
    · rcases LinuxNetworkConfig.afterLink_cases hmem with ⟨network, rfl, hnetwork⟩ | ⟨network, rfl⟩
      · refine raisedBefore_of_ne (by rintro ⟨⟩) ?_ (by rintro ⟨⟩)
        have hne : network ≠ config.address := by
          rcases hnetwork with hsecondary | ⟨haddr, rfl⟩
          · exact secondaryAddress_ne hvalid hsecondary
          · intro hsame
            exact haddr (by rw [← hsame, hostNet_addr])
        intro hsame
        exact hne (CommandSpec.addressAdd.inj hsame).1
      · exact raisedBefore_of_ne (by rintro ⟨⟩) (by rintro ⟨⟩) (by rintro ⟨⟩)
    · rcases LinuxNetworkConfig.afterLink_cases hmem with ⟨network, rfl, -⟩ | ⟨network, rfl⟩ <;>
        exact ⟨rfl, by rintro ⟨⟩⟩

/-- All of `prepare` raises the link. -/
theorem linkDown_mem_prepare (config : LinuxNetworkConfig) (interface : Bytes) :
    .linkDown interface ∈ [] ++ (buildPrepareOperations config).map (·.rollback) ↔
      interface = config.interface ∧ true = true := by
  rw [List.nil_append, config.buildPrepareOperations_eq, and_iff_left rfl, List.mem_map]
  constructor
  · rintro ⟨operation, hmem, hdown⟩
    rcases List.mem_append.mp hmem with hmem | hmem
    · exact absurd hdown (LinuxNetworkConfig.beforeLink_ne hmem interface)
    rcases List.mem_cons.mp hmem with rfl | hmem
    · exact (CommandSpec.linkDown.inj hdown).symm
    · exact absurd hdown (LinuxNetworkConfig.afterLink_ne hmem interface)
  · rintro rfl
    exact ⟨config.linkOperation, List.mem_append_right _ List.mem_cons_self, rfl⟩

theorem fits_networkExit {config : LinuxNetworkConfig} {journaled : Bool} {h : Host}
    (hvalid : validateConfig config = .ok ()) :
    (networkExit env journaled config h).Fits (.network config) := by
  unfold networkExit
  refine fits_next (placedAll_prepare hvalid) fun h' => ?_
  have hlinks := linkDown_mem_prepare config
  cases hdns : dnsOperations env h' config with
  | error error =>
      refine ⟨iff_of_false Bool.false_ne_true fun hempty => ?_, fun _ => rfl⟩
      have hmem := (hlinks config.interface).mpr ⟨rfl, rfl⟩
      rw [hempty] at hmem
      cases hmem
  | ok dns =>
      refine fits_next (placedAll_network true hlinks ?_ ?_ ?_) fun _ => fits_commitExit
      all_goals
        intro operation hmem
        rw [nftOperations, List.singleton_append] at hmem
        rcases List.mem_cons.mp hmem with rfl | hmem
      · rintro _ ⟨⟩
      · rcases dnsOperations_cases hdns with ⟨_, _, -, rfl⟩ | ⟨_, _, _, -, -, rfl⟩ | ⟨_, -, rfl⟩ |
          ⟨_, _, _, -, rfl⟩ <;> rw [List.mem_singleton.mp hmem] <;> rintro _ ⟨⟩
      · exact raisedBefore_of_ne (by rintro ⟨⟩) (by rintro ⟨⟩) (by rintro ⟨⟩)
      · rcases dnsOperations_cases hdns with ⟨_, _, -, rfl⟩ | ⟨_, _, _, -, -, rfl⟩ | ⟨_, -, rfl⟩ |
          ⟨_, _, _, -, rfl⟩ <;> rw [List.mem_singleton.mp hmem] <;>
          exact raisedBefore_of_ne (by rintro ⟨⟩) (by rintro ⟨⟩) (by rintro ⟨⟩)
      · exact ⟨rfl, by rintro ⟨⟩⟩
      · rcases dnsOperations_cases hdns with ⟨_, _, -, rfl⟩ | ⟨_, _, _, -, -, rfl⟩ | ⟨_, -, rfl⟩ |
          ⟨_, _, _, -, rfl⟩ <;> rw [List.mem_singleton.mp hmem] <;> exact ⟨rfl, fun _ => rfl⟩

/-- Of shared resources nothing is on a link, and every rollback is listed ahead of its change. -/
theorem placedAll_resources {resources : ResourceNetworkIntent} {routes : List HostRoute}
    {operations : List Operation} (happlied : ∀ interface, .linkDown interface ∉ applied)
    (hlinks : ∀ operation ∈ operations, ∀ interface, operation.rollback ≠ .linkDown interface) :
    PlacedAll (.resources resources routes) true applied operations := by
  induction operations generalizing applied with
  | nil => trivial
  | cons operation rest ih =>
      rw [List.forall_mem_cons] at hlinks
      have hlisted : ∀ interface, .linkDown interface ∉ applied ++ [operation.rollback] := by
        intro interface hmem
        rcases mem_concat.mp hmem with hmem | hdown
        · exact happlied interface hmem
        · exact hlinks.1 interface hdown.symm
      have hnot : ∀ interface : Bytes, ¬ (interface = resources.interface ∧ false = true) :=
        fun interface h => Bool.false_ne_true h.2
      refine ⟨⟨fun interface => iff_of_false (happlied interface) (hnot interface),
        fun interface => iff_of_false (hlisted interface) (hnot interface), fun _ => ⟨hlinks.1, ?_⟩, by rintro ⟨⟩⟩,
        ih hlisted hlinks.2⟩
      show decide ((applied ++ [operation.rollback]).length = 1) = true ↔ applied = []
      rw [decide_eq_true_eq, List.length_append, List.length_singleton]
      exact Nat.add_eq_right.trans List.length_eq_zero_iff

theorem fits_resourceExit {resources : ResourceNetworkIntent} {routes : List HostRoute} {journaled : Bool}
    {h : Host} (habsent : ∀ object ∈ resources.additions, Absent h object) :
    (resourceExit env journaled resources routes h).Fits (.resources resources routes) := by
  unfold resourceExit
  cases hread : resourceOperations env h resources routes with
  | error error => exact ⟨iff_of_true rfl rfl, fun _ => rfl⟩
  | ok operations =>
      refine fits_next (placedAll_resources (by rintro _ ⟨⟩) fun operation hmem interface hdown => ?_)
        fun _ => fits_commitExit
      obtain ⟨hs, hobject⟩ := resourceOperations_sound 0 habsent hread hmem
      exact hobject interface (isLink_of_rollback hs hdown)

/-! ## Whole calls

A process that dies within a call leaves a journal that takes the host back, whatever has failed until then.
A call that ends with an error has taken everything back, or it has not, as its first failure says.
-/

/-- A coordinator between two calls that has met no failure yet, with `b` for the host with nothing of it
applied. -/
structure Beneath (b : Host) (mtu : Nat) (s : Machine) : Prop extends Rest b mtu s where
  links : ∀ interface, .linkDown interface ∈ s.applied → Bare b mtu interface
  unrefused : s.refused = false
  unfailed : s.failure = none

variable (env) in
/-- At every moment of a call the journal file can be taken back. -/
theorem recoverable_of_crash (h : Beneath b mtu s) (hvalid : intent.validate = .ok ())
    (habsent : ∀ object ∈ intent.additions, Absent b object) (k : Nat) :
    Recoverable b ((intent.run env).crash k s).file ((intent.run env).crash k s).host :=
  (ensures_call env h.toRest h.unfailed hvalid habsent).crash k

theorem fits_freshExit {journaled : Bool} (hvalid : intent.validate = .ok ())
    (habsent : ∀ object ∈ intent.additions, Absent b object) :
    (intent.freshExit env journaled b).Fits intent := by
  cases intent with
  | network config => exact fits_networkExit hvalid
  | resources intent routes => exact fits_resourceExit habsent

theorem leavesNothing_of_unsavedRollback {failure : Failure} (h : UnsavedRollback failure) :
    intent.LeavesNothing b failure := by
  obtain ⟨journal, rfl, hphase⟩ := h
  cases intent <;> simp [Intent.LeavesNothing, Intent.answers, Intent.raisedBefore, hphase]

/-- **Clean failure**: a call that fails leaves nothing behind exactly where its first failure is one that
is answered, and comes before a link was raised that was up, had another MTU or had something on it. -/
theorem clean_failure_iff {error : PlatformError} (h : Beneath b mtu s) (hvalid : intent.validate = .ok ())
    (habsent : ∀ object ∈ intent.additions, Absent b object) (herror : (intent.run env s).2 = .error error)
    (hrefused : ((intent.run env).run s).refused = false) :
    ∃ failure, ((intent.run env).run s).failure = some failure ∧
      ((((intent.run env).run s).host = b ∧ ((intent.run env).run s).applied = [] ∧
        ((intent.run env).run s).file = none) ↔ intent.LeavesNothing b failure) := by
  obtain ⟨-, hcalled⟩ := ensures_call env h.toRest h.unfailed hvalid habsent
  rw [herror] at hcalled
  have hbase : settledAll b mtu s.applied = b := settledAll_eq_self.mpr h.links
  generalize (intent.run env).run s = t at hcalled hrefused ⊢
  rcases hcalled with ⟨hreversed, -⟩ | ⟨b', hb', hb, hclosed⟩
  · -- The rollback of what was applied before could not be saved, and has taken back all of it.
    obtain ⟨happlied, hhost, ⟨hok, -⟩ | ⟨-, failure, hunsaved, hfirst⟩⟩ := hreversed.taken hrefused
    · cases hok
    rw [h.unfailed, Option.none_or] at hfirst
    exact ⟨failure, hfirst, iff_of_true ⟨hhost.trans hbase, happlied, hreversed.empty happlied⟩
      (leavesNothing_of_unsavedRollback hunsaved)⟩
  · have hsame := hb h.unrefused
    rw [hbase] at hsame
    subst hsame
    have hfits : (intent.freshExit env s.journaled b').Fits intent := fits_freshExit hvalid habsent
    generalize intent.freshExit env s.journaled b' = exit at hclosed hfits
    cases exit with
    | done applied host => cases hclosed.1
    | rolledBack applied failure =>
        obtain ⟨-, ⟨b'', -, hrest⟩, hback⟩ := hclosed
        obtain ⟨happlied, hhost, hfirst⟩ := hback hrefused
        obtain ⟨hanswers, hlinks⟩ := hfits
        refine ⟨failure, hfirst, ?_⟩
        rw [hhost, settledAll_eq_self, and_iff_left ⟨happlied, hrest.empty happlied⟩, Intent.LeavesNothing,
          and_iff_right hanswers]
        refine ⟨fun hbare hraised => hbare _ ((hlinks _).mpr ⟨rfl, hraised⟩), fun hbare interface hmem => ?_⟩
        obtain ⟨rfl, hraised⟩ := (hlinks interface).mp hmem
        exact hbare hraised
    | abandoned applied failure =>
        obtain ⟨-, hrest, happlied, hfirst⟩ := hclosed
        obtain ⟨hanswers, hraised⟩ := hfits
        refine ⟨failure, hfirst, fun hleft => ?_, fun hleft => ?_⟩
        · have hempty := happlied.symm.trans hleft.2.1
          refine ⟨hanswers.mpr hempty, fun hbefore => ?_⟩
          rw [hraised hempty] at hbefore
          cases hbefore
        · have hempty := happlied.trans (hanswers.mp hleft.1)
          exact ⟨hrest.host hempty, hempty, hrest.empty hempty⟩

namespace CleanFailure

/-- An interface that is down, with the MTU it is to have, and a resolver without servers on it. -/
def host : Host
  | .link interface => if interface = [112, 119, 48] then some { up := false, mtu := 1420 } else none
  | .resolved interface =>
    if interface = [112, 119, 48] then some { dns := [], domains := [], defaultRoute := false } else none
  | .address _ _ => false
  | .route _ _ => false
  | .table _ => none
  | .profile _ _ => none
  | .openresolv => false
  | .record _ => none
  | .resolvConf _ => none
  | .forwarding _ => [48]
  | .acceptRa _ => none

theorem mesh_fits : 16 ≤ 32 := by decide

/-- 10.7.0.0/16. -/
def mesh : IpNet := .v4 ⟨0x0A070000#32, 16, mesh_fits⟩

def config : LinuxNetworkConfig where
  interface := [112, 119, 48]
  interfacePrecreated := true
  address := hostNet (.v4 0x0A070002#32)
  secondaryAddress := none
  mtu := 1420
  routes := [mesh]
  dnsSuffix := [109, 101, 115, 104]
  dnsServer := .v4 0x0A070035#32
  dnsBackend := .systemdResolved
  nftAllow := []

/-- Linux holds a route to the network of an IPv4 address on a link that is up, but for host addresses. -/
def prefixRoutes (addresses : List IpNet) : Connected := fun h interface network =>
  (h (.link interface)).any (·.up) && addresses.any fun address => address.addr.isIpv4 &&
    address.prefixLen < 32 && address.trunc = network && h (.address interface address)

/-- One event that fails, under Linux. -/
def failing (event : Event) : Environment where
  fails other := other = event
  connected := prefixRoutes [config.address, hostNet config.dnsServer]

theorem absent_host (object : Object) : Absent host object := by
  cases object <;> trivial

theorem beneath_host : Beneath host 1420 { host } where
  tracked := Tracked.nil host 1420
  safe := by rintro _ ⟨⟩
  empty _ := rfl
  unjournaled _ := rfl
  links := by rintro _ ⟨⟩
  unrefused := rfl
  unfailed := rfl

end CleanFailure

open CleanFailure in
/-- A route that cannot be added is a clean failure. -/
theorem failed_route_clean :
    let env := failing (.apply (.routeAdd mesh [112, 119, 48]))
    let t := (Intent.run env (.network config)).run { host }
    ∃ failure, t.failure = some failure ∧
      ((t.host = host ∧ t.applied = [] ∧ t.file = none) ↔
        (Intent.network config).LeavesNothing host failure) :=
  clean_failure_iff beneath_host (by decide) (fun object _ => absent_host object)
    (show (Intent.run _ (.network config) _).2 = .error (.command "failed") by decide) (by decide)

open CleanFailure in
/-- A snapshot of the resolver that fails leaves the addresses, the routes and the journal. -/
theorem failed_snapshot_leaves_addresses :
    let env := failing (.query (.resolvedSnapshot [112, 119, 48]))
    let t := (Intent.run env (.network config)).run { host }
    validateConfig config = .ok () ∧ (∀ object ∈ config.additions, Absent host object) ∧
      (Intent.run env (.network config) { host }).2 = .error (.command "read failed") ∧
      t.refused = false ∧ t.host (.address [112, 119, 48] config.address) = true ∧
      t.host (.route [112, 119, 48] mesh) = true ∧ t.applied ≠ [] ∧ t.file ≠ none := by
  refine ⟨by decide, fun object _ => absent_host object, by decide, by decide, by decide, by decide,
    by decide, by decide⟩

end Peerward.Platform
