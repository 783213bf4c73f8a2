import Peerward.Platform.Coordinator

/-!
# What a list of rollbacks keeps track of

A coordinator starts from a host `b`. Each rollback in its list sets one object to what it was in `b`,
but for a link: that goes down, keeps the MTU it was given and takes along what goes with it. Everything
else is as in `b`.
`Tracked` says so of a coordinator between two operations, `Recoverable` of its journal file at any
moment.
-/

namespace Peerward.Platform

open Peerward.Lib Peerward.Net Durable

/-! ## Commands and links

A command for an object on an interface needs the link to be there and leaves it there. So an interface
that is missing was missing all along.
-/

/-- The interface an object is on. -/
def Object.interface : Object → Option Bytes
  | .link interface | .address interface _ | .route interface _ | .resolved interface => some interface
  | _ => none

variable {connected : Connected} {b h h' : Host} {mtu : Nat} {command : CommandSpec} {interface : Bytes}

theorem requireLink_eq_ok {link : Link} :
    requireLink h interface = .ok link ↔ h (.link interface) = some link := by
  unfold requireLink
  split
  · next held hheld => rw [hheld, Except.ok.injEq, Option.some.injEq]
  · next hnone => rw [hnone]; exact ⟨nofun, nofun⟩

/-- An object on an interface is changed while the interface is there, and leaves it there. -/
theorem execute_present (hrun : execute connected command h = .ok h')
    (hinterface : command.object.interface = some interface) :
    h (.link interface) ≠ none ∧ h' (.link interface) ≠ none := by
  have hkept : ∀ {link : Link} {object : Object} {value : object.Value}, h (.link interface) = some link →
      object ≠ .link interface → h' = h.set object value → h' (.link interface) ≠ none := by
    intro link object value hlink hne hset
    rw [hset, Host.set_of_ne h value hne.symm, hlink]
    exact Option.some_ne_none _
  cases command <;> simp only [execute] at hrun <;> cases hinterface
  case tuntapAdd | tuntapDel => cases hrun
  case linkUp =>
    obtain ⟨link, hlink, hrun⟩ := bind_eq_ok.mp hrun
    rw [requireLink_eq_ok.mp hlink, ← Except.ok.inj hrun, Host.set_self]
    exact ⟨Option.some_ne_none _, Option.some_ne_none _⟩
  case linkDown =>
    obtain ⟨link, hlink, hrun⟩ := bind_eq_ok.mp hrun
    rw [requireLink_eq_ok.mp hlink, ← Except.ok.inj hrun]
    refine ⟨Option.some_ne_none _, ?_⟩
    split
    · rw [Host.down, if_pos rfl]
      exact Option.some_ne_none _
    · rw [requireLink_eq_ok.mp hlink]
      exact Option.some_ne_none _
  case addressAdd | addressDel | routeAdd | routeDel =>
    obtain ⟨link, hlink, hrun⟩ := bind_eq_ok.mp hrun
    replace hlink := requireLink_eq_ok.mp hlink
    refine ⟨by rw [hlink]; exact Option.some_ne_none _, ?_⟩
    split at hrun
    · first
      | exact hkept hlink (by rintro ⟨⟩) (Except.ok.inj hrun).symm
      | cases hrun
    · first
      | exact hkept hlink (by rintro ⟨⟩) (Except.ok.inj hrun).symm
      | cases hrun
  case resolvedReplace =>
    obtain ⟨link, hlink, hrun⟩ := bind_eq_ok.mp hrun
    obtain ⟨_, _, hrun⟩ := bind_eq_ok.mp hrun
    obtain ⟨_, _, hrun⟩ := bind_eq_ok.mp hrun
    replace hlink := requireLink_eq_ok.mp hlink
    refine ⟨by rw [hlink]; exact Option.some_ne_none _, ?_⟩
    exact hkept hlink (by rintro ⟨⟩) (Except.ok.inj hrun).symm

/-- No command makes a link appear or vanish. -/
theorem execute_link (hrun : execute connected command h = .ok h') (interface : Bytes) :
    h' (.link interface) = none ↔ h (.link interface) = none := by
  by_cases hobject : command.object = .link interface
  · obtain ⟨hbefore, hafter⟩ := execute_present hrun (show command.object.interface = some interface by rw [hobject]; rfl)
    exact ⟨fun hnone => absurd hnone hafter, fun hnone => absurd hnone hbefore⟩
  · rw [execute_frame hrun (Ne.symm hobject) ?_]
    rintro other rfl
    exact decide_eq_false fun hsame => hobject (by rw [hsame]; rfl)

theorem requireLink_eq_error {failure : PlatformError} (hrun : requireLink h interface = .error failure) :
    failure = .interfaceMissing interface ∧ h (.link interface) = none := by
  unfold requireLink at hrun
  split at hrun
  · cases hrun
  · next hnone => exact ⟨(Except.error.inj hrun).symm, hnone⟩

theorem swapped_ne_missing {α : Type} [DecidableEq α] (mutation : Mutation α) (current : α)
    (f : α → Host) :
    (do let next ← mutation.swap current; .ok (f next) : Except PlatformError Host) ≠
      .error (.interfaceMissing interface) := by
  intro hrun
  rcases bind_eq_error.mp hrun with hswap | ⟨_, _, hset⟩
  · unfold Mutation.swap at hswap
    split at hswap
    · cases hswap
    split at hswap <;> cases hswap
  · cases hset

theorem required_ne_missing {α : Type} {failure : PlatformError} {value : Option α}
    (hfailure : failure ≠ .interfaceMissing interface) :
    required failure value ≠ .error (.interfaceMissing interface) := by
  intro hrun
  unfold required at hrun
  split at hrun
  · cases hrun
  · exact hfailure (Except.error.inj hrun)

theorem rejectIf_ne_missing {bad : Bool} {failure : PlatformError}
    (hfailure : failure ≠ .interfaceMissing interface) :
    rejectIf bad failure ≠ .error (.interfaceMissing interface) := by
  intro hrun
  cases bad
  · cases hrun
  · exact hfailure (Except.error.inj hrun)

theorem readResolvConf_ne_missing (path : Bytes) :
    readResolvConf h path ≠ .error (.interfaceMissing interface) := by
  intro hrun
  rcases bind_eq_error.mp hrun with hrun | ⟨_, _, hrun⟩
  · exact required_ne_missing (by rintro ⟨⟩) hrun
  rcases bind_eq_error.mp hrun with hrun | ⟨_, _, hrun⟩
  · exact rejectIf_ne_missing (by rintro ⟨⟩) hrun
  · cases hrun

/-- An interface is only missed by a command for an object on it. -/
theorem execute_interfaceMissing (hrun : execute connected command h = .error (.interfaceMissing interface)) :
    command.object.interface = some interface ∧ h (.link interface) = none := by
  cases command <;> simp only [execute] at hrun
  case tuntapAdd | tuntapDel | nftReplace | nftDestroy => cases hrun
  case linkUp | linkDown =>
    rcases bind_eq_error.mp hrun with hrun | ⟨_, _, hrun⟩
    · obtain ⟨hfailure, hnone⟩ := requireLink_eq_error hrun
      cases hfailure
      exact ⟨rfl, hnone⟩
    · cases hrun
  case addressAdd | addressDel | routeAdd | routeDel =>
    rcases bind_eq_error.mp hrun with hrun | ⟨_, _, hrun⟩
    · obtain ⟨hfailure, hnone⟩ := requireLink_eq_error hrun
      cases hfailure
      exact ⟨rfl, hnone⟩
    · split at hrun <;> cases hrun
  case resolvedReplace =>
    rcases bind_eq_error.mp hrun with hrun | ⟨_, _, hrun⟩
    · obtain ⟨hfailure, hnone⟩ := requireLink_eq_error hrun
      cases hfailure
      exact ⟨rfl, hnone⟩
    rcases bind_eq_error.mp hrun with hrun | ⟨_, _, hrun⟩
    · exact absurd hrun (required_ne_missing (by rintro ⟨⟩))
    · exact absurd hrun (swapped_ne_missing _ _ _)
  case profileReplace =>
    rcases bind_eq_error.mp hrun with hrun | ⟨_, _, hrun⟩
    · exact absurd hrun (rejectIf_ne_missing (by rintro ⟨⟩))
    rcases bind_eq_error.mp hrun with hrun | ⟨_, _, hrun⟩
    · exact absurd hrun (required_ne_missing (by rintro ⟨⟩))
    · exact absurd hrun (swapped_ne_missing _ _ _)
  case recordAdd =>
    split at hrun <;> cases hrun
  case recordDel =>
    split at hrun
    · split at hrun <;> cases hrun
    · cases hrun
  case resolvConfReplace =>
    rcases bind_eq_error.mp hrun with hrun | ⟨_, _, hrun⟩
    · exact absurd hrun (rejectIf_ne_missing (by rintro ⟨⟩))
    rcases bind_eq_error.mp hrun with hrun | ⟨_, _, hrun⟩
    · exact absurd hrun (readResolvConf_ne_missing _)
    · exact absurd hrun (swapped_ne_missing _ _ _)
  case forwardingReplace => exact absurd hrun (swapped_ne_missing _ _ _)
  case acceptRaReplace =>
    rcases bind_eq_error.mp hrun with hrun | ⟨_, _, hrun⟩
    · exact absurd hrun (rejectIf_ne_missing (by rintro ⟨⟩))
    rcases bind_eq_error.mp hrun with hrun | ⟨_, _, hrun⟩
    · exact absurd hrun (required_ne_missing (by rintro ⟨⟩))
    · exact absurd hrun (swapped_ne_missing _ _ _)

/-! ## Taking back

A rollback that succeeds puts its object back to what it was, or takes its link down. Which one depends on
the command only.
-/

/-- A rollback that sets its object to what it is in `b`. -/
def Undoes (b : Host) : CommandSpec → Prop
  | .addressDel network interface => b (.address interface network) = false
  | .linkDown _ => True
  | .routeDel network interface => b (.route interface network.trunc) = false
  | .nftDestroy table => b (.table table) = none
  | .resolvedReplace interface mutation => b (.resolved interface) = some mutation.replacement
  | .profileReplace connection mutation =>
    b (.profile connection mutation.expected.family) = some mutation.replacement.toProfileDns
  | .recordDel label => b (.record label) = none
  | .resolvConfReplace path mutation => b (.resolvConf path) = some mutation.replacement
  | .forwardingReplace family mutation => b (.forwarding family) = mutation.replacement
  | .acceptRaReplace interface mutation => b (.acceptRa interface) = some mutation.replacement
  | .tuntapAdd _ | .tuntapDel _ | .addressAdd _ _ | .linkUp _ _ | .routeAdd _ _ | .nftReplace _ _
  | .recordAdd _ _ => False

/-- A swap finds one of its two values. -/
def Mutation.Meets {α : Type} (mutation : Mutation α) (current : α) : Prop :=
  current = mutation.replacement ∨ current = mutation.expected

/-- A rollback that is a swap finds one of its two values. -/
def Allowed (h : Host) : CommandSpec → Prop
  | .resolvedReplace interface mutation =>
    ∃ current, h (.resolved interface) = some current ∧ mutation.Meets current
  | .profileReplace connection mutation =>
    mutation.expected.family = mutation.replacement.family ∧
      ∃ current, h (.profile connection mutation.expected.family) = some current ∧
        mutation.Meets { current with family := mutation.expected.family }
  | .resolvConfReplace path mutation =>
    ∃ current, h (.resolvConf path) = some current ∧ mutation.Meets current
  | .forwardingReplace family mutation => mutation.Meets (h (.forwarding family))
  | .acceptRaReplace interface mutation =>
    safeName interface = true ∧ ∃ current, h (.acceptRa interface) = some current ∧ mutation.Meets current
  | _ => True

/-- What a rollback leaves of a host: its object is as in `b`, or its link is down. -/
def takenBack (b : Host) (mtu : Nat) (command : CommandSpec) (h : Host) : Host :=
  match command with
  | .linkDown interface => h.down interface mtu
  | command => h.set command.object (b command.object)

theorem takenBack_of_ne (hdown : ∀ interface, command ≠ .linkDown interface) :
    takenBack b mtu command h = h.set command.object (b command.object) := by
  cases command with
  | linkDown interface => exact absurd rfl (hdown interface)
  | _ => rfl

theorem takenBack_frame {object : Object} (hne : object ≠ command.object)
    (hunder : ∀ interface, command = .linkDown interface → object.under interface = false) :
    takenBack b mtu command h object = h object := by
  by_cases hdown : ∃ interface, command = .linkDown interface
  · obtain ⟨interface, rfl⟩ := hdown
    exact Host.down_of_not_under (hunder interface rfl)
  · rw [takenBack_of_ne fun interface h => hdown ⟨interface, h⟩, Host.set_of_ne h _ hne]

theorem swap_eq_ok {α : Type} [DecidableEq α] {mutation : Mutation α} {current next : α}
    (hswap : mutation.swap current = .ok next) : next = mutation.replacement := by
  unfold Mutation.swap at hswap
  split at hswap
  · next hsame => exact (Except.ok.inj hswap) ▸ hsame
  split at hswap
  · cases hswap
  · exact (Except.ok.inj hswap).symm

/-- A rollback that succeeds takes back what it is for. -/
theorem execute_undoes (hundoes : Undoes b command)
    (hraised : ∀ interface, command = .linkDown interface → h (.link interface) = some { up := true, mtu })
    (hrun : execute connected command h = .ok h') : h' = takenBack b mtu command h := by
  cases command <;> simp only [execute] at hrun <;> try exact absurd hundoes id
  -- a link is taken down; everything else is set back to what `b` has
  case linkDown interface =>
    obtain ⟨link, hlink, hrun⟩ := bind_eq_ok.mp hrun
    have hup := hraised interface rfl
    rw [requireLink_eq_ok.mp hlink, Option.some.injEq] at hup
    rw [← Except.ok.inj hrun, hup]
    rfl
  case addressDel network interface =>
    obtain ⟨_, _, hrun⟩ := bind_eq_ok.mp hrun
    split at hrun
    · rw [← Except.ok.inj hrun]
      exact congrArg (h.set (.address interface network)) hundoes.symm
    · cases hrun
  case routeDel network interface =>
    obtain ⟨_, _, hrun⟩ := bind_eq_ok.mp hrun
    split at hrun
    · rw [← Except.ok.inj hrun]
      exact congrArg (h.set (.route interface network.trunc)) hundoes.symm
    · cases hrun
  case nftDestroy table =>
    rw [← Except.ok.inj hrun]
    exact congrArg (h.set (.table table)) hundoes.symm
  case recordDel label =>
    split at hrun
    · split at hrun
      · rw [← Except.ok.inj hrun]
        exact congrArg (h.set (.record label)) hundoes.symm
      · cases hrun
    · cases hrun
  case resolvedReplace interface mutation =>
    obtain ⟨_, _, hrun⟩ := bind_eq_ok.mp hrun
    obtain ⟨_, _, hrun⟩ := bind_eq_ok.mp hrun
    obtain ⟨next, hswap, hrun⟩ := bind_eq_ok.mp hrun
    rw [← Except.ok.inj hrun, swap_eq_ok hswap]
    exact congrArg (h.set (.resolved interface)) hundoes.symm
  case profileReplace connection mutation =>
    obtain ⟨_, _, hrun⟩ := bind_eq_ok.mp hrun
    obtain ⟨_, _, hrun⟩ := bind_eq_ok.mp hrun
    obtain ⟨next, hswap, hrun⟩ := bind_eq_ok.mp hrun
    rw [← Except.ok.inj hrun, swap_eq_ok hswap]
    exact congrArg (h.set (.profile connection mutation.expected.family)) hundoes.symm
  case resolvConfReplace path mutation =>
    obtain ⟨_, _, hrun⟩ := bind_eq_ok.mp hrun
    obtain ⟨_, _, hrun⟩ := bind_eq_ok.mp hrun
    obtain ⟨next, hswap, hrun⟩ := bind_eq_ok.mp hrun
    rw [← Except.ok.inj hrun, swap_eq_ok hswap]
    exact congrArg (h.set (.resolvConf path)) hundoes.symm
  case forwardingReplace family mutation =>
    obtain ⟨next, hswap, hrun⟩ := bind_eq_ok.mp hrun
    rw [← Except.ok.inj hrun, swap_eq_ok hswap]
    exact congrArg (h.set (.forwarding family)) hundoes.symm
  case acceptRaReplace interface mutation =>
    obtain ⟨_, _, hrun⟩ := bind_eq_ok.mp hrun
    obtain ⟨_, _, hrun⟩ := bind_eq_ok.mp hrun
    obtain ⟨next, hswap, hrun⟩ := bind_eq_ok.mp hrun
    rw [← Except.ok.inj hrun, swap_eq_ok hswap]
    exact congrArg (h.set (.acceptRa interface)) hundoes.symm

/-! ## Tracked hosts

`Tracked` is the invariant of the coordinator: each listed rollback can run, and leads back to what its
object was; objects that no listed rollback is about are as they were.
-/

/-- The rollbacks of a coordinator, and the host they have led to. -/
structure Tracked (b : Host) (mtu : Nat) (applied : List CommandSpec) (h : Host) : Prop where
  undoes : ∀ command ∈ applied, Undoes b command
  allowed : ∀ command ∈ applied, Allowed h command
  raised : ∀ interface, .linkDown interface ∈ applied → h (.link interface) = some { up := true, mtu }
  once : ∀ interface, applied.count (.linkDown interface) ≤ 1
  others : ∀ object, (∀ command ∈ applied, command.object ≠ object) → h object = b object
  missing : ∀ object interface, object.interface = some interface → h (.link interface) = none →
    h object = b object

/-- An object changed by compare and swap. -/
def Object.swapped : Object → Bool
  | .resolved _ | .profile _ _ | .resolvConf _ | .forwarding _ | .acceptRa _ => true
  | _ => false

theorem not_under_of_swapped {object : Object} (hswapped : object.swapped = true) :
    object.under interface = false := by
  cases object <;> first | rfl | cases hswapped

/-- A rollback that is a swap goes back to what `b` has. -/
def Returns (b : Host) (command : CommandSpec) : Prop :=
  command.object.swapped = true → Undoes b command

/-- What a journal file holds can be taken back. -/
def Recoverable (b : Host) (file : Option NetworkJournal) (h : Host) : Prop :=
  ∀ journal, file = some journal → ∀ command ∈ journal.rollback, Returns b command ∧ Allowed h command

variable {applied : List CommandSpec} {file : Option NetworkJournal}

theorem Tracked.nil (b : Host) (mtu : Nat) : Tracked b mtu [] b :=
  ⟨nofun, nofun, nofun, fun _ => Nat.zero_le _, fun _ _ => rfl, fun _ _ _ _ => rfl⟩

theorem Tracked.recoverable (ht : Tracked b mtu applied h)
    (hfile : ∀ journal, file = some journal → journal.rollback ⊆ applied) : Recoverable b file h :=
  fun journal hjournal command hmem =>
    ⟨fun _ => ht.undoes command (hfile journal hjournal hmem),
      ht.allowed command (hfile journal hjournal hmem)⟩

/-- Whether a swap finds its values only depends on its object. -/
theorem Allowed.congr (ha : Allowed h command) (hsame : h' command.object = h command.object) :
    Allowed h' command := by
  cases command with
  | resolvedReplace | profileReplace | resolvConfReplace | forwardingReplace | acceptRaReplace =>
      simp only [Allowed, CommandSpec.object] at ha hsame ⊢
      rw [hsame]
      exact ha
  | _ => trivial

/-- A rollback is allowed when its object is as in `b`. -/
theorem Allowed.restored (hundoes : Undoes b command) (ha : Allowed h command)
    (hback : h' command.object = b command.object) : Allowed h' command := by
  cases command with
  | resolvedReplace | resolvConfReplace =>
      exact ⟨_, hback.trans hundoes, .inl rfl⟩
  | profileReplace connection mutation =>
      refine ⟨ha.1, _, hback.trans hundoes, .inl ?_⟩
      rw [ha.1]
  | forwardingReplace => exact .inl (hback.trans hundoes)
  | acceptRaReplace => exact ⟨ha.1, _, hback.trans hundoes, .inl rfl⟩
  | _ => trivial

theorem allowed_of_not_swapped (hplain : command.object.swapped = false) : Allowed h command := by
  cases command <;> trivial

/-- Taking something back does not get in the way of a swap. -/
theorem Allowed.takenBack (hreturns : Returns b command) (ha : Allowed h command) (other : CommandSpec) :
    Allowed (Platform.takenBack b mtu other h) command := by
  cases hswapped : command.object.swapped with
  | false => exact allowed_of_not_swapped hswapped
  | true =>
      by_cases hdown : ∃ interface, other = .linkDown interface
      · obtain ⟨interface, rfl⟩ := hdown
        exact ha.congr (Host.down_of_not_under (not_under_of_swapped hswapped))
      rw [takenBack_of_ne fun interface h => hdown ⟨interface, h⟩]
      by_cases hobject : command.object = other.object
      · refine ha.restored (hreturns hswapped) ?_
        rw [hobject, Host.set_self]
      · exact ha.congr (Host.set_of_ne h _ hobject)

theorem Recoverable.takenBack (hr : Recoverable b file h) (other : CommandSpec) :
    Recoverable b file (Platform.takenBack b mtu other h) :=
  fun journal hjournal command hmem => ⟨(hr journal hjournal command hmem).1,
    (hr journal hjournal command hmem).2.takenBack (hr journal hjournal command hmem).1 other⟩

/-- `b` with what a rollback leaves of its object. -/
def settled (b : Host) (mtu : Nat) (command : CommandSpec) : Host := takenBack b mtu command b

theorem settled_of_ne (hdown : ∀ interface, command ≠ .linkDown interface) : settled b mtu command = b := by
  rw [settled, takenBack_of_ne hdown]
  exact Function.update_eq_self _ _

/-- `b'` is `b`, but for links that are down, and for what has gone with them. -/
structure Settles (b b' : Host) : Prop where
  kept : ∀ object, (∀ interface, object.under interface = false) → b' object = b object
  addresses : ∀ interface network, b' (.address interface network) = true →
    b (.address interface network) = true
  routes : ∀ interface network, b' (.route interface network) = true →
    b (.route interface network) = true

theorem Settles.refl (b : Host) : Settles b b := ⟨fun _ _ => rfl, fun _ _ h => h, fun _ _ h => h⟩

theorem Settles.trans {b₁ b₂ b₃ : Host} (h : Settles b₁ b₂) (h' : Settles b₂ b₃) : Settles b₁ b₃ :=
  ⟨fun object hnot => (h'.kept object hnot).trans (h.kept object hnot),
    fun interface network hthere => h.addresses interface network (h'.addresses interface network hthere),
    fun interface network hthere => h.routes interface network (h'.routes interface network hthere)⟩

theorem settles_settled (b : Host) (mtu : Nat) (command : CommandSpec) :
    Settles b (settled b mtu command) := by
  by_cases hdown : ∃ interface, command = .linkDown interface
  · obtain ⟨interface, rfl⟩ := hdown
    exact ⟨fun object hnot => Host.down_of_not_under (hnot interface),
      fun other network hthere => (Bool.and_eq_true_iff.mp hthere).1,
      fun other network hthere => (Bool.and_eq_true_iff.mp hthere).1⟩
  · rw [settled_of_ne fun interface h => hdown ⟨interface, h⟩]
    exact .refl b

/-- What was absent is still absent. -/
theorem Settles.undoes {b' : Host} (hs : Settles b b') (h : Undoes b command) : Undoes b' command := by
  cases command with
  | addressDel network interface =>
      exact Bool.eq_false_iff.mpr fun hthere => Bool.eq_false_iff.mp h (hs.addresses _ _ hthere)
  | routeDel network interface =>
      exact Bool.eq_false_iff.mpr fun hthere => Bool.eq_false_iff.mp h (hs.routes _ _ hthere)
  | nftDestroy | resolvedReplace | profileReplace | recordDel | resolvConfReplace | forwardingReplace
  | acceptRaReplace =>
      exact (hs.kept _ fun _ => rfl).trans h
  | _ => exact h

theorem Settles.returns {b' : Host} (hs : Settles b b') : Returns b command ↔ Returns b' command := by
  refine forall_congr' fun hswapped => ?_
  have hkept : b' command.object = b command.object := hs.kept _ (fun _ => not_under_of_swapped hswapped)
  cases command <;> cases hswapped <;> simp only [Undoes, CommandSpec.object] at hkept ⊢ <;> rw [hkept]

/-- A rollback has run, or found its interface missing. -/
theorem Tracked.undone {front kept : List CommandSpec} (ht : Tracked b mtu (front ++ command :: kept) h)
    (hrun : execute connected command h = .ok h' ∨
      (∃ interface, execute connected command h = .error (.interfaceMissing interface)) ∧ h' = h) :
    h' = takenBack b mtu command h ∧ Tracked (settled b mtu command) mtu (front ++ kept) h' := by
  have hthis : command ∈ front ++ command :: kept := by simp
  have hrest : ∀ other ∈ front ++ kept, other ∈ front ++ command :: kept := by
    intro other hmem
    rcases List.mem_append.mp hmem with hmem | hmem
    · exact List.mem_append_left _ hmem
    · exact List.mem_append_right _ (List.mem_cons_of_mem _ hmem)
  have hset : h' = takenBack b mtu command h := by
    rcases hrun with hrun | ⟨⟨interface, hrun⟩, rfl⟩
    · refine execute_undoes (ht.undoes command hthis) (fun interface hdown => ?_) hrun
      exact ht.raised interface (hdown ▸ hthis)
    · obtain ⟨hinterface, hnone⟩ := execute_interfaceMissing hrun
      have hdown : ∀ other, command ≠ .linkDown other := by
        rintro other rfl
        cases hinterface
        rw [ht.raised _ hthis] at hnone
        cases hnone
      rw [takenBack_of_ne hdown, ← ht.missing _ _ hinterface hnone]
      exact (Function.update_eq_self _ _).symm
  have hpresence : ∀ interface, h' (.link interface) = none → h (.link interface) = none := by
    intro interface hnone
    rcases hrun with hrun | ⟨-, rfl⟩
    · exact (execute_link hrun interface).mp hnone
    · exact hnone
  -- What the rollback touches is the same on both hosts, whatever it was.
  have htouched : ∀ object, object = command.object ∨
      (∃ interface, command = .linkDown interface ∧ object.under interface = true) →
      h' object = settled b mtu command object := by
    intro object htouched
    rw [hset, settled]
    by_cases hdown : ∃ interface, command = .linkDown interface
    · obtain ⟨interface, rfl⟩ := hdown
      refine Host.down_of_under ?_
      rcases htouched with rfl | ⟨other, hsame, hunder⟩
      · exact decide_eq_true rfl
      · cases hsame
        exact hunder
    · have hdown' := fun interface h => hdown ⟨interface, h⟩
      rcases htouched with rfl | ⟨interface, hsame, -⟩
      · rw [takenBack_of_ne hdown', takenBack_of_ne hdown', Host.set_self, Host.set_self]
      · exact absurd hsame (hdown' interface)
  have hframe : ∀ object, object ≠ command.object →
      (∀ interface, command = .linkDown interface → object.under interface = false) →
      h' object = h object ∧ settled b mtu command object = b object := by
    intro object hne hunder
    exact ⟨by rw [hset, takenBack_frame hne hunder], takenBack_frame hne hunder⟩
  have hcases : ∀ object, (h' object = settled b mtu command object) ∨
      (object ≠ command.object ∧ h' object = h object ∧ settled b mtu command object = b object) := by
    intro object
    by_cases hthese : object = command.object ∨
        ∃ interface, command = .linkDown interface ∧ object.under interface = true
    · exact .inl (htouched object hthese)
    · rw [not_or] at hthese
      refine .inr ⟨hthese.1, hframe object hthese.1 fun interface hdown => ?_⟩
      exact Bool.eq_false_iff.mpr fun hunder => hthese.2 ⟨interface, hdown, hunder⟩
  have hcount : ∀ interface, (front ++ command :: kept).count (.linkDown interface) =
      (front ++ kept).count (.linkDown interface) + if command = .linkDown interface then 1 else 0 := by
    intro interface
    rw [List.count_append, List.count_append, List.count_cons, Nat.add_assoc]
    simp only [beq_iff_eq]
  refine ⟨hset, fun other hmem => (settles_settled b mtu command).undoes (ht.undoes other (hrest other hmem)),
    fun other hmem => ?_, fun interface hmem => ?_, fun interface => ?_, fun object hnot => ?_,
    fun object interface hinterface hnone => ?_⟩
  · rw [hset]
    exact (ht.allowed other (hrest other hmem)).takenBack (fun _ => ht.undoes other (hrest other hmem)) _
  · -- Each link is raised once, so this is another one.
    have hother : command ≠ .linkDown interface := by
      intro hsame
      have honce := ht.once interface
      have hpositive := List.count_pos_iff.mpr hmem
      rw [hcount, if_pos hsame] at honce
      omega
    have hobject : Object.link interface ≠ command.object := by
      intro hobject
      have hundoes := ht.undoes command hthis
      cases command <;> cases hobject <;> first | exact hundoes | exact hother rfl
    rw [(hframe _ hobject fun other hdown => decide_eq_false fun hsame => hother ?_).1]
    · exact ht.raised interface (hrest _ hmem)
    · rw [hdown, hsame]
  · have honce := ht.once interface
    rw [hcount] at honce
    omega
  · rcases hcases object with hsame | ⟨hne, hkept, hbase⟩
    · exact hsame
    · rw [hkept, hbase]
      refine ht.others object fun other hmem => ?_
      rcases List.mem_append.mp hmem with hmem | hmem
      · exact hnot other (List.mem_append_left _ hmem)
      · rcases List.mem_cons.mp hmem with rfl | hmem
        · exact hne.symm
        · exact hnot other (List.mem_append_right _ hmem)
  · rcases hcases object with hsame | ⟨-, hkept, hbase⟩
    · exact hsame
    · rw [hkept, hbase]
      exact ht.missing object interface hinterface (hpresence interface hnone)

/-! ## Operations

An operation together with its rollback keeps a host tracked, whether the rollback is listed ahead of it or
behind it.
-/

/-- A swap is applied once. -/
def Operation.isSwap (operation : Operation) : Bool :=
  match operation.apply with
  | .resolvedReplace _ _ | .profileReplace _ _ | .resolvConfReplace _ _ | .forwardingReplace _ _
  | .acceptRaReplace _ _ => true
  | _ => false

/-- An operation on a host whose objects are as in `b`: what it adds is absent there, and what it swaps
was read there. -/
inductive Sound (b : Host) (mtu : Nat) : Operation → Prop where
  | tuntap (interface : Bytes) :
    Sound b mtu { apply := .tuntapAdd interface, rollback := .tuntapDel interface }
  | address (interface : Bytes) (network : IpNet) (absent : b (.address interface network) = false) :
    Sound b mtu (addressOperation interface network)
  | link (interface : Bytes) :
    Sound b mtu { apply := .linkUp interface mtu, rollback := .linkDown interface }
  | route (interface : Bytes) (network : IpNet) (absent : b (.route interface network.trunc) = false) :
    Sound b mtu (routeOperation interface network)
  | table (table : Bytes) (contents : NftTable) (absent : b (.table table) = none) :
    Sound b mtu (nftOperation table contents)
  | record (label : Bytes) (record : ResolverRecord) (absent : b (.record label) = none) :
    Sound b mtu { apply := .recordAdd label record, rollback := .recordDel label }
  | resolved (interface : Bytes) (original replacement : ResolvedLinkState)
      (held : b (.resolved interface) = some original) :
    Sound b mtu (swapOperation (.resolvedReplace interface) original replacement)
  | profile (connection : Bytes) (original replacement : NetworkManagerDnsState)
      (family : original.family = replacement.family)
      (held : b (.profile connection original.family) = some original.toProfileDns) :
    Sound b mtu (swapOperation (.profileReplace connection) original replacement)
  | resolvConf (path : Bytes) (original replacement : Bytes)
      (held : b (.resolvConf path) = some original) :
    Sound b mtu (swapOperation (.resolvConfReplace path) original replacement)
  | forwarding (family : AddressFamily) (original replacement : Bytes)
      (held : b (.forwarding family) = original) :
    Sound b mtu (swapOperation (.forwardingReplace family) original replacement)
  | acceptRa (interface : Bytes) (original replacement : Bytes) (safe : safeName interface = true)
      (held : b (.acceptRa interface) = some original) :
    Sound b mtu (swapOperation (.acceptRaReplace interface) original replacement)

variable {operation : Operation}

theorem Sound.object (hs : Sound b mtu operation) : operation.rollback.object = operation.apply.object := by
  cases hs with
  | profile connection original replacement family =>
      show Object.profile connection replacement.family = .profile connection original.family
      rw [family]
  | _ => rfl

/-- The rollback of what can be applied at all. -/
theorem Sound.undoes (hs : Sound b mtu operation) :
    Undoes b operation.rollback ∨ ∃ interface, operation.apply = .tuntapAdd interface := by
  cases hs with
  | tuntap interface => exact .inr ⟨interface, rfl⟩
  | link interface => exact .inl trivial
  | address _ _ absent | route _ _ absent | table _ _ absent | record _ _ absent => exact .inl absent
  | resolved _ _ _ held | resolvConf _ _ _ held | forwarding _ _ _ held | acceptRa _ _ _ _ held =>
      exact .inl held
  | profile connection original replacement family held =>
      left
      show b (.profile connection replacement.family) = some original.toProfileDns
      rw [← family]
      exact held

/-- A swap is back where it was before, and so its rollback is allowed already. -/
theorem Sound.allowed_before (hs : Sound b mtu operation)
    (hsame : operation.isSwap = true → h operation.apply.object = b operation.apply.object) :
    Allowed h operation.rollback := by
  cases hs with
  | resolved _ _ _ held | resolvConf _ _ _ held => exact ⟨_, (hsame rfl).trans held, .inl rfl⟩
  | profile connection original replacement family held =>
      refine ⟨family.symm, original.toProfileDns, ?_, .inl ?_⟩
      · show h (.profile connection replacement.family) = some original.toProfileDns
        rw [← family]
        exact (hsame rfl).trans held
      · show { original with family := replacement.family } = original
        rw [← family]
  | forwarding _ _ _ held => exact .inl ((hsame rfl).trans held)
  | acceptRa _ _ _ safe held => exact ⟨safe, _, (hsame rfl).trans held, .inl rfl⟩
  | _ => trivial

/-- A swap leaves the other value. -/
theorem Sound.allowed_after (hs : Sound b mtu operation) (hrun : execute connected operation.apply h = .ok h') :
    Allowed h' operation.rollback := by
  cases hs with
  | resolved interface original replacement held =>
      obtain ⟨_, _, hrun⟩ := bind_eq_ok.mp hrun
      obtain ⟨_, _, hrun⟩ := bind_eq_ok.mp hrun
      obtain ⟨next, hswap, hrun⟩ := bind_eq_ok.mp hrun
      refine ⟨replacement, ?_, .inr rfl⟩
      rw [← Except.ok.inj hrun, swap_eq_ok hswap, Host.set_self]
  | profile connection original replacement family held =>
      obtain ⟨_, _, hrun⟩ := bind_eq_ok.mp hrun
      obtain ⟨_, _, hrun⟩ := bind_eq_ok.mp hrun
      obtain ⟨next, hswap, hrun⟩ := bind_eq_ok.mp hrun
      refine ⟨family.symm, replacement.toProfileDns, ?_, .inr rfl⟩
      show h' (.profile connection replacement.family) = some replacement.toProfileDns
      rw [← family, ← Except.ok.inj hrun, swap_eq_ok hswap, Host.set_self]
  | resolvConf path original replacement held =>
      obtain ⟨_, _, hrun⟩ := bind_eq_ok.mp hrun
      obtain ⟨_, _, hrun⟩ := bind_eq_ok.mp hrun
      obtain ⟨next, hswap, hrun⟩ := bind_eq_ok.mp hrun
      refine ⟨replacement, ?_, .inr rfl⟩
      rw [← Except.ok.inj hrun, swap_eq_ok hswap, Host.set_self]
  | forwarding family original replacement held =>
      obtain ⟨next, hswap, hrun⟩ := bind_eq_ok.mp hrun
      right
      rw [← Except.ok.inj hrun, swap_eq_ok hswap]
      exact Host.set_self h (.forwarding family) replacement
  | acceptRa interface original replacement safe held =>
      obtain ⟨_, _, hrun⟩ := bind_eq_ok.mp hrun
      obtain ⟨_, _, hrun⟩ := bind_eq_ok.mp hrun
      obtain ⟨next, hswap, hrun⟩ := bind_eq_ok.mp hrun
      refine ⟨safe, replacement, ?_, .inr rfl⟩
      rw [← Except.ok.inj hrun, swap_eq_ok hswap, Host.set_self]
  | _ => trivial

/-- A rollback on the object of an operation that is no swap. -/
theorem allowed_of_object (hs : Sound b mtu operation) (hswap : operation.isSwap = false)
    (hundoes : Undoes b command) (hobject : command.object = operation.apply.object) :
    Allowed h command := by
  cases hs <;> cases hswap <;> cases command <;> trivial

/-- What is applied leaves the object of a swap alone, and has not raised the link. -/
structure FreshFor (applied : List CommandSpec) (operation : Operation) : Prop where
  swap : operation.isSwap = true → ∀ command ∈ applied, command.object ≠ operation.apply.object
  link : ∀ interface, operation.rollback = .linkDown interface → .linkDown interface ∉ applied

theorem mem_concat {α : Type} {l : List α} {a x : α} : x ∈ l ++ [a] ↔ x ∈ l ∨ x = a := by
  rw [List.mem_append, List.mem_singleton]

/-- A rollback is listed before its operation runs. -/
theorem Tracked.pushed (ht : Tracked b mtu applied h) (hs : Sound b mtu operation)
    (hfresh : FreshFor applied operation) (htuntap : ∀ interface, operation.apply ≠ .tuntapAdd interface)
    (hlink : ∀ interface, operation.rollback ≠ .linkDown interface) :
    Tracked b mtu (applied ++ [operation.rollback]) h := by
  have hundoes : Undoes b operation.rollback :=
    hs.undoes.resolve_right fun ⟨interface, htun⟩ => htuntap interface htun
  refine ⟨fun command hmem => ?_, fun command hmem => ?_, fun interface hmem => ?_, fun interface => ?_,
    fun object hnot => ?_, ht.missing⟩
  · rcases mem_concat.mp hmem with hmem | rfl
    · exact ht.undoes command hmem
    · exact hundoes
  · rcases mem_concat.mp hmem with hmem | rfl
    · exact ht.allowed command hmem
    · exact hs.allowed_before fun hswap => ht.others _ (hfresh.swap hswap)
  · rcases mem_concat.mp hmem with hmem | hdown
    · exact ht.raised interface hmem
    · exact absurd hdown.symm (hlink interface)
  · rw [List.count_append, List.count_singleton, beq_eq_false_iff_ne.mpr (hlink interface)]
    exact ht.once interface
  · exact ht.others object fun command hmem => hnot command (mem_concat.mpr (.inl hmem))

theorem execute_linkUp (hrun : execute connected (.linkUp interface mtu) h = .ok h') :
    h' (.link interface) = some { up := true, mtu } := by
  obtain ⟨_, _, hrun⟩ := bind_eq_ok.mp hrun
  rw [← Except.ok.inj hrun, Host.set_self]

/-- An operation has run, and its rollback is listed. -/
theorem Tracked.mutated (ht : Tracked b mtu applied h) (hs : Sound b mtu operation)
    (hfresh : FreshFor applied operation) (hrun : execute connected operation.apply h = .ok h') :
    Tracked b mtu (applied ++ [operation.rollback]) h' := by
  have hundoes : Undoes b operation.rollback :=
    hs.undoes.resolve_right fun ⟨interface, htun⟩ => by rw [htun] at hrun; cases hrun
  have hother : ∀ object, object ≠ operation.apply.object → h' object = h object :=
    fun object hne => execute_frame hrun hne fun interface hdown => by cases hs <;> cases hdown
  refine ⟨fun command hmem => ?_, fun command hmem => ?_, fun interface hmem => ?_, fun interface => ?_,
    fun object hnot => ?_, fun object interface hinterface hnone => ?_⟩
  · rcases mem_concat.mp hmem with hmem | rfl
    · exact ht.undoes command hmem
    · exact hundoes
  · rcases mem_concat.mp hmem with hmem | rfl
    · by_cases hobject : command.object = operation.apply.object
      · cases hswap : operation.isSwap with
        | true => exact absurd hobject (hfresh.swap hswap command hmem)
        | false => exact allowed_of_object hs hswap (ht.undoes command hmem) hobject
      · exact (ht.allowed command hmem).congr (hother _ hobject)
    · exact hs.allowed_after hrun
  · by_cases hobject : Object.link interface = operation.apply.object
    · -- The only operations on a link are `linkUp` and `tuntapAdd`.
      cases hs <;> cases hobject
      · cases hrun
      · exact execute_linkUp hrun
    · rw [hother _ hobject]
      rcases mem_concat.mp hmem with hmem | hdown
      · exact ht.raised interface hmem
      · rw [← hs.object, ← hdown] at hobject
        exact absurd rfl hobject
  · rw [List.count_append, List.count_singleton]
    by_cases hdown : operation.rollback = .linkDown interface
    · rw [List.count_eq_zero.mpr (hfresh.link interface hdown)]
      split <;> omega
    · rw [beq_eq_false_iff_ne.mpr hdown]
      exact ht.once interface
  · rw [hother object fun hobject => hnot operation.rollback (mem_concat.mpr (.inr rfl))
      (hs.object.trans hobject.symm)]
    exact ht.others object fun command hmem => hnot command (mem_concat.mpr (.inl hmem))
  · have hnone' := (execute_link hrun interface).mp hnone
    by_cases hobject : object = operation.apply.object
    · rw [hobject] at hinterface
      exact absurd hnone' (execute_present hrun hinterface).1
    · rw [hother object hobject]
      exact ht.missing object interface hinterface hnone'

end Peerward.Platform
