import Peerward.Platform.Plans

/-!
# Whole calls

`apply` and `apply_resource_network`, from a coordinator between two calls. What was applied before is
taken back first; from the host that this leaves, a call ends where `Exit` says. A failure is answered with
a rollback, but on three ways out: a read of the resolver, a journal write ahead of a change, and the
journal write of `commit`.
-/

namespace Peerward.Platform

open Peerward.Lib Peerward.Net Durable

/-! ## What is asked -/

inductive Intent where
  | network (config : LinuxNetworkConfig)
  | resources (intent : ResourceNetworkIntent) (routes : List HostRoute)

namespace Intent

def validate : Intent → Except PlatformError Unit
  | .network config => validateConfig config
  | .resources intent routes => validateIntent intent routes

def run (env : Environment) : Intent → Program Unit
  | .network config => apply env config
  | .resources intent routes => applyResourceNetwork env intent routes

def additions : Intent → List Object
  | .network config => config.additions
  | .resources intent _ => intent.additions

def interface : Intent → Bytes
  | .network config => config.interface
  | .resources intent _ => intent.interface

/-- The MTU a link is given. -/
def mtu : Intent → Nat
  | .network config => config.mtu
  | .resources _ _ => 0

end Intent

/-! ## Where a call ends

The exits of the parts of a call, put one after the other: the operations of `prepare`, what the resolver
needs once it was read, and the last write of the journal.
-/

/-- What follows the operations of a part of a call. -/
def Exit.next (exit : Exit) (f : List CommandSpec → Host → Exit) : Exit :=
  match exit with
  | .done applied h => f applied h
  | exit => exit

/-- `commit`, whose failure is only returned. -/
def commitExit (env : Environment) (journaled : Bool) (applied : List CommandSpec) (h : Host) : Exit :=
  if !applied.isEmpty && saveFails env journaled .active applied then
    .abandoned applied (.journal (journalOf .active applied))
  else .done applied h

def networkExit (env : Environment) (journaled : Bool) (config : LinuxNetworkConfig) (h : Host) : Exit :=
  (operationsExit env journaled false (buildPrepareOperations config) [] h).next fun applied h =>
    match dnsOperations env h config with
    | .error _ => .abandoned applied .read
    | .ok dns =>
      (operationsExit env journaled false (nftOperations config (nftTable config.interface) ++ dns)
        applied h).next (commitExit env journaled)

def resourceExit (env : Environment) (journaled : Bool) (intent : ResourceNetworkIntent)
    (routes : List HostRoute) (h : Host) : Exit :=
  match resourceOperations env h intent routes with
  | .error _ => .abandoned [] .read
  | .ok operations =>
    (operationsExit env journaled true operations [] h).next (commitExit env journaled)

/-- Where a call ends on a host that nothing is applied to. -/
def Intent.freshExit (env : Environment) (journaled : Bool) (h : Host) : Intent → Exit
  | .network config => networkExit env journaled config h
  | .resources intent routes => resourceExit env journaled intent routes h

/-! ## Before a call

A call begins by taking back what was applied before it. From there on the host is the one with nothing
applied, but for links that are down.
-/

variable {env : Environment} {b : Host} {mtu : Nat} {s t : Machine}

/-- A coordinator between two calls, over a host `b` that nothing of it is applied to. -/
structure Rest (b : Host) (mtu : Nat) (s : Machine) : Prop where
  tracked : Tracked b mtu s.applied s.host
  safe : Safe b s
  empty : s.applied = [] → s.file = none
  unjournaled : s.journaled = false → s.file = none

/-- A coordinator with nothing to take back is on `b` itself. -/
theorem Rest.host (h : Rest b mtu s) (happlied : s.applied = []) : s.host = b := by
  have ht := h.tracked
  rw [happlied] at ht
  exact funext fun object => ht.others object nofun

theorem Reversed.rest {r : Except PlatformError Unit} (h : Reversed b mtu s r t) :
    ∃ b', Settles b b' ∧ Rest b' mtu t := by
  obtain ⟨b', hb', htracked, -⟩ := h.tracked
  exact ⟨b', hb', htracked, hb'.safe.mp h.safe, h.empty, h.unjournaled⟩

/-- Where nothing is refused, everything is taken back. -/
theorem Reversed.taken {r : Except PlatformError Unit} (h : Reversed b mtu s r t)
    (hrefused : t.refused = false) :
    t.applied = [] ∧ t.host = settledAll b mtu s.applied ∧
      ((r = .ok () ∧ t.failure = s.failure) ∨
        (∃ error, r = .error error) ∧ ∃ failure, UnsavedRollback failure ∧
          t.failure = s.failure.or (some failure)) := by
  obtain ⟨b', -, htracked, hsettled⟩ := h.tracked
  rcases h.outcome with ⟨hbad, -⟩ | ⟨hempty, -, hend⟩
  · rw [hbad] at hrefused
    cases hrefused
  · rw [hempty] at htracked
    refine ⟨hempty, ?_, hend⟩
    rw [← hsettled hrefused]
    exact funext fun object => htracked.others object nofun

theorem Listed.rest (h : Listed b mtu s) : Rest b mtu s := ⟨h.tracked, h.safe, h.empty, h.unjournaled⟩

theorem Absent.settles {b' : Host} (hb : Settles b b') {object : Object} (h : Absent b object) :
    Absent b' object := by
  cases object with
  | address interface network =>
      exact Bool.eq_false_iff.mpr fun hthere => Bool.eq_false_iff.mp h (hb.addresses _ _ hthere)
  | route interface network =>
      exact Bool.eq_false_iff.mpr fun hthere => Bool.eq_false_iff.mp h (hb.routes _ _ hthere)
  | table | record => exact (hb.kept _ fun _ => rfl).trans h
  | _ => trivial

/-! ## After a call -/

/-- The end of a call from a host `b`, as far as a caller sees it. -/
def Closed (b : Host) (mtu : Nat) (exit : Exit) (r : Except PlatformError Unit) (t : Machine) : Prop :=
  match exit with
  | .done applied _ => r = .ok () ∧ Rest b mtu t ∧ t.applied = applied
  | .rolledBack applied failure => (∃ error, r = .error error) ∧ (∃ b', Settles b b' ∧ Rest b' mtu t) ∧
      (t.refused = false → t.applied = [] ∧ t.host = settledAll b mtu applied ∧ t.failure = some failure)
  | .abandoned applied failure => (∃ error, r = .error error) ∧ Rest b mtu t ∧ t.applied = applied ∧
      t.failure = some failure

theorem Ended.closed {exit : Exit} {r : Except PlatformError Unit} (h : Ended b mtu s exit r t) :
    Closed b mtu exit r t := by
  cases exit with
  | done applied host =>
      obtain ⟨hr, hpreparing, happlied, -⟩ := h
      exact ⟨hr, hpreparing.rest, happlied⟩
  | rolledBack applied failure =>
      obtain ⟨hr, u, r', rfl, -, -, hfailure, hreversed⟩ := h
      refine ⟨hr, hreversed.rest, fun hrefused => ?_⟩
      obtain ⟨hempty, hhost, ⟨-, hsame⟩ | ⟨-, _, -, hfirst⟩⟩ := hreversed.taken hrefused
      · exact ⟨hempty, hhost, hsame.trans hfailure⟩
      · exact ⟨hempty, hhost, by rw [hfirst, hfailure]; rfl⟩
  | abandoned applied failure =>
      obtain ⟨hr, hlisted, happlied, -, -, hfailure⟩ := h
      exact ⟨hr, hlisted.rest, happlied, hfailure⟩

/-- The operations of a part of a call, with what follows them in `f`. -/
theorem ensures_operations {beforeMutation : Bool} {operations : List Operation} {exit : Exit}
    {f : List CommandSpec → Host → Exit} {Q : Except PlatformError Unit → Machine → Prop}
    (h : Preparing b mtu s) (hplan : Planned b mtu beforeMutation s.applied operations)
    (hexit : (operationsExit env s.journaled beforeMutation operations s.applied s.host).next f = exit)
    (hdone : ∀ applied host t, applied = s.applied ++ operations.map (·.rollback) → f applied host = exit →
      Preparing b mtu t → t.applied = applied → t.host = host → t.journaled = s.journaled → Q (.ok ()) t)
    (herror : ∀ error t, Closed b mtu exit (.error error) t → Q (.error error) t) :
    Ensures s (applyOperationsJournaled env beforeMutation operations) (Safe b) Q := by
  refine (ensures_applyOperations operations h hplan).mono (fun _ h => h) fun r t hended => ?_
  cases hops : operationsExit env s.journaled beforeMutation operations s.applied s.host with
  | done applied host =>
      rw [hops] at hexit hended
      obtain ⟨rfl, hpreparing, happlied, hhost, -, hjournaled⟩ := hended
      exact hdone applied host t (operationsExit_done hops) hexit hpreparing happlied hhost hjournaled
  | rolledBack applied failure =>
      rw [hops] at hexit hended
      subst hexit
      obtain ⟨error, rfl⟩ := hended.1
      exact herror error t hended.closed
  | abandoned applied failure =>
      rw [hops] at hexit hended
      subst hexit
      obtain ⟨error, rfl⟩ := hended.1
      exact herror error t hended.closed

theorem ensures_requirePrepared {C : Machine → Prop} {Q : Except PlatformError Unit → Machine → Prop}
    (hphase : s.phase = some .prepared) (hC : C s) (hQ : Q (.ok ()) s) :
    Ensures s requirePrepared C Q := by
  refine ensures_ask hC ?_
  rw [hphase]
  exact hQ

theorem ensures_commit (h : Preparing b mtu s) :
    Ensures s (commit env) (Safe b) (Closed b mtu (commitExit env s.journaled s.applied s.host)) := by
  unfold commit
  refine ensures_bind (ensures_requirePrepared h.phase h.safe ?_)
  refine ensures_bind (ensures_put h.safe h.safe ?_)
  have hactive : Rest b mtu { s with phase := some .active } := ⟨h.tracked, h.safe, h.empty, h.unjournaled⟩
  have hjournal : ({ s with phase := some .active } : Machine).journal =
      if s.journaled && !s.applied.isEmpty then some (journalOf .active s.applied) else none := rfl
  show Ensures { s with phase := some .active } _ _ _
  unfold commitExit saveFails
  refine ensures_persistJournal h.safe ?_ ?_ ?_
  · intro hnone
    rw [hjournal] at hnone
    split at hnone
    · cases hnone
    · next hoff =>
        rw [Bool.and_comm, Bool.not_eq_true] at hoff
        rw [← Bool.and_assoc, hoff, Bool.false_and, if_neg Bool.false_ne_true]
        exact ⟨rfl, hactive, rfl⟩
  · intro journal hsome hsaves
    rw [hjournal] at hsome
    split at hsome
    · next hon =>
        rw [Option.some.injEq] at hsome
        rw [hsome, hsaves, Bool.and_false, Bool.and_false, if_neg Bool.false_ne_true]
        have hsafe : Safe b { s with phase := some .active, file := some journal } :=
          Tracked.saved (s := { s with phase := some .active }) h.tracked
            (hjournal.trans ((if_pos hon).trans (congrArg some hsome)))
        rw [Bool.and_eq_true, Bool.not_eq_true', List.isEmpty_eq_false_iff] at hon
        refine ⟨hsafe, rfl, ⟨h.tracked, hsafe, fun hempty => absurd hempty hon.2, fun hoff => ?_⟩, rfl⟩
        exact absurd (hon.1.symm.trans hoff) (by decide)
    · cases hsome
  · intro journal hsome hfails
    rw [hjournal] at hsome
    split at hsome
    · next hon =>
        rw [Option.some.injEq] at hsome
        rw [Bool.and_comm] at hon
        rw [hsome, hfails, Bool.and_true, if_pos hon]
        exact ⟨h.safe, ⟨.io, rfl⟩, ⟨h.tracked, h.safe, h.empty, h.unjournaled⟩, rfl,
          Machine.failure_failing (s := { s with phase := some .active }) h.unfailed _⟩
    · cases hsome

/-! ## Whole calls

Both calls are the same four parts. What they need of the plan is that its operations are sound when their
turn comes, which `Plans` has shown.
-/

theorem preparing_of_empty {u : Machine} (happlied : u.applied = []) (hhost : u.host = b)
    (hfile : u.file = none) (hunfailed : u.failure = none) :
    Preparing b mtu { u with phase := some .prepared } := by
  refine ⟨⟨?_, fun journal h => ?_, fun _ => hfile, fun _ => hfile⟩, rfl, hunfailed⟩
  · rw [happlied, hhost]
    exact Tracked.nil b mtu
  · rw [hfile] at h
    cases h

/-- What `shutdown` leaves: nothing applied, or an error. -/
theorem ensures_shutdown {Q : Except PlatformError Unit → Machine → Prop} (h : Rest b mtu s)
    (hdone : ∀ b' u, Settles b b' → (s.refused = false → b' = settledAll b mtu s.applied) →
      u.applied = [] → u.host = b' → u.file = none → u.journaled = s.journaled →
      u.failure = s.failure → Q (.ok ()) u)
    (herror : ∀ error t, Reversed b mtu s (.error error) t → Q (.error error) t) :
    Ensures s (shutdown env) (Safe b) Q := by
  refine (ensures_rollbackAll h.tracked h.safe h.unjournaled).mono (fun _ h => h) fun r t hreversed => ?_
  cases r with
  | error error => exact herror error t hreversed
  | ok value =>
      rcases hreversed.outcome with ⟨-, _, hbad⟩ | ⟨hempty, hrefused, hend⟩
      · cases hbad
      obtain ⟨b', hb', htracked, hsettled⟩ := hreversed.tracked
      rw [hempty] at htracked
      have hfailure : t.failure = s.failure := by
        rcases hend with ⟨-, hsame⟩ | ⟨⟨_, hbad⟩, -⟩
        · exact hsame
        · cases hbad
      exact hdone b' t hb' (fun hs => hsettled (hrefused.trans hs)) hempty
        (funext fun object => htracked.others object nofun) (hreversed.empty hempty) hreversed.journaled
        hfailure

/-- How a call ends: what was applied before is not all taken back, or the call ends from a host with
nothing applied. -/
def Called (env : Environment) (b : Host) (mtu : Nat) (s : Machine) (intent : Intent)
    (r : Except PlatformError Unit) (t : Machine) : Prop :=
  (Reversed b mtu s r t ∧ ∃ error, r = .error error) ∨
  ∃ b', Settles b b' ∧ (s.refused = false → b' = settledAll b mtu s.applied) ∧
    Closed b' intent.mtu (intent.freshExit env s.journaled b') r t

theorem additions_settle {b' : Host} (hb : Settles b b') {objects : List Object}
    (habsent : ∀ object ∈ objects, Absent b object) : ∀ object ∈ objects, Absent b' object :=
  fun object hmem => (habsent object hmem).settles hb

/-- A read that the call needs. -/
theorem ensures_readHost {α : Type} {read : Host → Except PlatformError α} {C : Machine → Prop}
    {Q : Except PlatformError α → Machine → Prop} (hC : C s) (hC' : C (s.failing .read))
    (hok : ∀ value, read s.host = .ok value → Q (.ok value) s)
    (herror : ∀ error, read s.host = .error error → Q (.error error) (s.failing .read)) :
    Ensures s (readHost read) C Q := by
  unfold readHost
  refine ensures_bind (ensures_ask hC ?_)
  cases hread : read s.host with
  | ok value => exact ensures_pure hC (hok value hread)
  | error error => exact ensures_bind (ensures_put hC hC' (ensures_fail hC' (herror error hread)))

/-- A call from a host with nothing applied. -/
theorem ensures_prepared_network {config : LinuxNetworkConfig}
    {Q : Except PlatformError Unit → Machine → Prop} (h : Preparing b config.mtu s)
    (happlied : s.applied = []) (hhost : s.host = b)
    (habsent : ∀ object ∈ config.additions, Absent b object)
    (herror : ∀ error t, Closed b config.mtu (networkExit env s.journaled config b) (.error error) t →
      Q (.error error) t)
    (hok : ∀ t, Ensures t (activateDns env config >>= fun _ => commit env) (Safe b)
      (Closed b config.mtu (networkExit env s.journaled config b)) → Q (.ok ()) t) :
    Ensures s (applyOperationsJournaled env false (buildPrepareOperations config)) (Safe b) Q := by
  refine ensures_operations h (by rw [happlied]; exact prepareOperations_planned habsent)
    (by rw [happlied, hhost]; rfl) ?_ herror
  intro applied host t happlied' hexit ht hlist hhost' hjournaled
  have hsame : ∀ object, object.swapped = true → t.host object = b object := by
    intro object hswapped
    refine ht.tracked.others object fun command hmem hobject => ?_
    rw [hlist, happlied', happlied, List.nil_append] at hmem
    obtain ⟨operation, hoperation, rfl⟩ := List.mem_map.mp hmem
    obtain ⟨hs, hplain⟩ := prepareOperations_sound habsent hoperation
    rw [← hobject, hs.swapped, hplain] at hswapped
    cases hswapped
  apply hok
  refine ensures_bind ?_
  unfold activateDns
  rw [← hhost'] at hexit
  refine ensures_bind (ensures_requirePrepared ht.phase ht.safe (ensures_bind
    (ensures_readHost ht.safe ht.safe ?_ ?_)))
  · intro dns hdns
    rw [hdns] at hexit
    have hplan := activateOperations_planned habsent hsame hdns
    refine ensures_operations (f := commitExit env s.journaled) ht ?_ ?_ ?_ fun error u hclosed => hclosed
    · rw [hlist, happlied', happlied, List.nil_append]
      exact hplan
    · rw [← hexit, hlist, hjournaled]
    · intro applied' host' u _ hexit' hu hlist' hhost'' hjournaled'
      rw [← hexit', ← hlist', ← hhost'', ← hjournaled, ← hjournaled']
      exact ensures_commit hu
  · intro error hdns
    rw [hdns] at hexit
    rw [← hexit]
    exact ⟨⟨error, rfl⟩, ⟨ht.tracked, ht.safe, ht.empty, ht.unjournaled⟩, hlist,
      Machine.failure_failing ht.unfailed _⟩

theorem ensures_apply {config : LinuxNetworkConfig} (h : Rest b mtu s) (hunfailed : s.failure = none)
    (hvalid : validateConfig config = .ok ()) (habsent : ∀ object ∈ config.additions, Absent b object) :
    Ensures s (apply env config) (Safe b) (Called env b mtu s (.network config)) := by
  -- The rest of `prepare`, when nothing is applied.
  have hrest : ∀ {Q : Except PlatformError Unit → Machine → Prop} b' u, Settles b b' →
      (s.refused = false → b' = settledAll b mtu s.applied) →
      u.applied = [] → u.host = b' → u.file = none → u.journaled = s.journaled → u.failure = s.failure →
      (∀ error t, Called env b mtu s (.network config) (.error error) t → Q (.error error) t) →
      (∀ t, Ensures t (activateDns env config >>= fun _ => commit env) (Safe b)
        (Called env b mtu s (.network config)) → Q (.ok ()) t) →
      Ensures u (put (.phase (some .prepared)) >>= fun _ =>
        applyOperationsJournaled env false (buildPrepareOperations config)) (Safe b) Q := by
    intro Q b' u hb' hb happlied hhost hfile hjournaled hfailure herror hok
    have hsafe : Safe b u := by
      intro journal hjournal
      rw [hfile] at hjournal
      cases hjournal
    have hpreparing : Preparing b' config.mtu { u with phase := some .prepared } :=
      preparing_of_empty happlied hhost hfile (hfailure.trans hunfailed)
    refine ensures_bind (ensures_put hsafe hsafe ?_)
    have hcalled : ∀ r t, Closed b' config.mtu (networkExit env u.journaled config b') r t →
        Called env b mtu s (.network config) r t := by
      intro r t hclosed
      rw [hjournaled] at hclosed
      exact .inr ⟨b', hb', hb, hclosed⟩
    refine (ensures_prepared_network hpreparing happlied hhost (additions_settle hb' habsent)
      (fun error t hclosed => herror error t (hcalled _ t hclosed)) fun t ht => hok t ?_).mono
      (fun _ h => hb'.safe.mpr h) fun _ _ h => h
    exact ht.mono (fun _ h => hb'.safe.mpr h) hcalled
  unfold apply prepare
  refine ensures_bind (ensures_bind (ensures_ask h.safe ?_))
  rw [hvalid]
  refine ensures_bind (ensures_ask h.safe ?_)
  show Ensures s (if !s.applied.isEmpty then _ else _) (Safe b) _
  split
  · refine ensures_bind (ensures_shutdown h ?_ fun error t hreversed => .inl ⟨hreversed, error, rfl⟩)
    intro b' u hb' hb happlied hhost hfile hjournaled hfailure
    exact hrest b' u hb' hb happlied hhost hfile hjournaled hfailure (fun _ _ h => h) fun _ h => h
  · next hempty =>
      have happlied : s.applied = [] := by
        rw [Bool.not_eq_true, Bool.not_eq_false'] at hempty
        exact List.isEmpty_iff.mp hempty
      refine hrest b s (.refl b) (fun _ => ?_) happlied (h.host happlied) (h.empty happlied) rfl rfl
        (fun _ _ h => h) fun _ h => h
      rw [happlied]
      rfl

theorem ensures_applyResourceNetwork {intent : ResourceNetworkIntent} {routes : List HostRoute}
    (h : Rest b mtu s) (hunfailed : s.failure = none) (hvalid : validateIntent intent routes = .ok ())
    (habsent : ∀ object ∈ intent.additions, Absent b object) :
    Ensures s (applyResourceNetwork env intent routes) (Safe b)
      (Called env b mtu s (.resources intent routes)) := by
  unfold applyResourceNetwork
  refine ensures_bind (ensures_ask h.safe ?_)
  rw [hvalid]
  refine ensures_bind (ensures_shutdown h ?_ fun error t hreversed => .inl ⟨hreversed, error, rfl⟩)
  intro b' u hb' hb happlied hhost hfile hjournaled hfailure
  have hsafe : Safe b u := by
    intro journal hjournal
    rw [hfile] at hjournal
    cases hjournal
  have hpreparing : Preparing b' 0 { u with phase := some .prepared } :=
    preparing_of_empty happlied hhost hfile (hfailure.trans hunfailed)
  have hexit : (Intent.resources intent routes).freshExit env s.journaled b' =
      resourceExit env u.journaled intent routes b' := by rw [hjournaled]; rfl
  refine ensures_bind (ensures_put hsafe hsafe (ensures_bind (ensures_readHost hsafe hsafe ?_ ?_)))
  · intro operations hread
    replace hread : resourceOperations env u.host intent routes = .ok operations := hread
    rw [hhost] at hread
    have hplan : Planned b' 0 true [] operations :=
      resourceOperations_planned (additions_settle hb' habsent) hread
    refine ensures_bind ((ensures_operations hpreparing (by dsimp only; rw [happlied]; exact hplan)
      (by dsimp only; rw [hexit, resourceExit, hread, happlied, hhost]) ?_
      fun error t hclosed => .inr ⟨b', hb', hb, hclosed⟩).mono (fun _ h => hb'.safe.mpr h) fun _ _ h => h)
    intro applied host t _ hnext ht hlist hhost' hjournaled'
    refine (ensures_commit ht).mono (fun _ h => hb'.safe.mpr h) fun r v hclosed => .inr ⟨b', hb', hb, ?_⟩
    rw [← hnext, ← hlist, ← hhost']
    rw [hjournaled'] at hclosed
    exact hclosed
  · intro error hread
    replace hread : resourceOperations env u.host intent routes = .error error := hread
    refine .inr ⟨b', hb', hb, ?_⟩
    rw [hexit, resourceExit, ← hhost, hread]
    rw [← hhost] at hpreparing
    exact ⟨⟨error, rfl⟩, ⟨hpreparing.tracked, hpreparing.safe, hpreparing.empty, hpreparing.unjournaled⟩,
      happlied, Machine.failure_failing hpreparing.unfailed _⟩

variable (env) in
theorem ensures_call {intent : Intent} (h : Rest b mtu s) (hunfailed : s.failure = none)
    (hvalid : intent.validate = .ok ()) (habsent : ∀ object ∈ intent.additions, Absent b object) :
    Ensures s (intent.run env) (Safe b) (Called env b mtu s intent) := by
  cases intent with
  | network config => exact ensures_apply h hunfailed hvalid habsent
  | resources intent routes => exact ensures_applyResourceNetwork h hunfailed hvalid habsent

end Peerward.Platform
