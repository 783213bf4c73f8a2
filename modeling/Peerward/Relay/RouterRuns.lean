import Peerward.Relay.Router

/-!
# Fences, and the fate of queued messages

For one peer at a time every call moves messages along one line: what it accepts joins the end of the
queue, and what it returns or drops leaves the front (`queue_step`). A run does the same, so the
messages accepted for a peer are those that left its queue, in that order, followed by those still in
it. Fences, revocations and listed credentials are read off the history of the run (`Inv`).
-/

namespace Peerward.Relay.OpaqueRouter

open Std Peerward.Lib Peerward.Wire
open Peerward.Credentials (Crypto)
open Peerward.Directory (DirectoryPublicKey PeerDirectory PeerEntry SignedPeerDirectory SignedPeerEntry)
open Peerward.Types (CredentialSerial Id MeshId PeerId)

variable {s : OpaqueRouter} {peer : PeerId}

/-! ## Queues

What joins a queue and what leaves it, for one call. A queue loses its front to its Peer, or all of itself
to one of the causes in `drops`.
-/

/-- What a call adds to the queue of a peer. -/
def accepted (peer : PeerId) (s : OpaqueRouter) (op : Op) : List ControlEnvelope :=
  match op with
  | .routeControl routed | .routeAuthenticatedControl routed | .acceptCrossRelayControl routed =>
    if routed.destination = peer ∧ (s.answer op).isOk then [routed.envelope] else []
  | _ => []

/-- What a call returns from the queue of a peer. -/
def returned (peer : PeerId) (s : OpaqueRouter) (op : Op) : List ControlEnvelope :=
  match op with
  | .receiveControl receiver _ =>
    match s.answer op with
    | .ok (some envelope) => if receiver = peer then [envelope] else []
    | _ => []
  | _ => []

/-- The peer has an enabled entry in the directory. -/
def enables (directory : PeerDirectory) (peer : PeerId) : Bool :=
  directory.entries.any fun signed => signed.entry.enabled && signed.entry.peerId = peer

/-- The causes for which a queue is dropped. -/
def drops (peer : PeerId) (s : OpaqueRouter) : Op → Bool
  | .detach detached generation =>
    detached = peer && (s.attachments[peer]?).any (·.generation = generation)
  | .installDirectory update =>
    (s.answer (.installDirectory update)).isOk && !enables update.directory peer
  | .revoke serial => (s.directoryCredentials[peer]?).any (·.contains serial)
  | _ => false

/-- What a call drops from the queue of a peer. -/
def dropped (peer : PeerId) (s : OpaqueRouter) (op : Op) : List ControlEnvelope :=
  if drops peer s op then s.queue peer else []

/-- What leaves the queue of a peer, and whether it was received. -/
def departed (peer : PeerId) (s : OpaqueRouter) (op : Op) : List (ControlEnvelope × Bool) :=
  (returned peer s op).map (·, true) ++ (dropped peer s op).map (·, false)

@[simp] theorem queue_setQueue (s : OpaqueRouter) (destination : PeerId)
    (envelopes : List ControlEnvelope) : (s.setQueue destination envelopes).queue peer =
      if destination = peer then envelopes else s.queue peer := by
  unfold queue setQueue
  rw [ExtTreeMap.getElem?_insert]
  by_cases h : destination = peer
  · simp [h]
  · simp [h]

theorem queue_filter (s : OpaqueRouter) (keep : PeerId → Bool) (peer : PeerId) :
    ((s.controlQueues.filter fun peer _ => keep peer)[peer]?).getD [] =
      if keep peer then s.queue peer else [] := by
  rw [ExtTreeMap.getElem?_filter', queue]
  cases s.controlQueues[peer]? <;> cases keep peer <;> rfl

/-- The peers of `credentialsOf` are the enabled ones, with their serials. -/
theorem credentialsOf_spec (directory : PeerDirectory) (peer : PeerId) :
    (credentialsOf directory).contains peer = enables directory peer ∧
      ∀ credentials, (credentialsOf directory)[peer]? = some credentials →
        ∃ signed ∈ directory.entries, signed.entry.enabled = true ∧ signed.entry.peerId = peer ∧
          credentials = acceptedSerials signed.entry := by
  suffices h : ∀ (entries : List SignedPeerEntry)
      (credentials : ExtTreeMap PeerId (ExtTreeSet CredentialSerial)),
      let all := entries.foldl (fun credentials signed =>
        credentials.insert signed.entry.peerId (acceptedSerials signed.entry)) credentials
      (all.contains peer = (credentials.contains peer ||
        entries.any fun signed => signed.entry.peerId = peer)) ∧
      ∀ found, all[peer]? = some found → credentials[peer]? = some found ∨
        ∃ signed ∈ entries, signed.entry.peerId = peer ∧ found = acceptedSerials signed.entry by
    obtain ⟨hcontains, hfound⟩ := h (directory.entries.filter (·.entry.enabled)) ∅
    constructor
    · rw [credentialsOf, hcontains, enables, List.any_filter]
      simp
    · intro credentials hcredentials
      rcases hfound credentials hcredentials with hnone | ⟨signed, hmem, hpeer, heq⟩
      · simp at hnone
      · rw [List.mem_filter] at hmem
        exact ⟨signed, hmem.1, hmem.2, hpeer, heq⟩
  intro entries
  induction entries with
  | nil => exact fun credentials => ⟨by simp, fun found h => .inl h⟩
  | cons signed entries ih =>
      intro credentials
      obtain ⟨hcontains, hfound⟩ := ih
        (credentials.insert signed.entry.peerId (acceptedSerials signed.entry))
      refine ⟨?_, fun found h => ?_⟩
      · rw [List.foldl_cons, hcontains, List.any_cons, ExtTreeMap.contains_insert]
        by_cases h : signed.entry.peerId = peer
        · simp [h]
        · have hne : (compare signed.entry.peerId peer == .eq) = false := by simpa using h
          simp [h, hne]
      · rcases hfound found h with hinsert | ⟨other, hmem, hpeer, heq⟩
        · rw [ExtTreeMap.getElem?_insert] at hinsert
          by_cases hpeer : signed.entry.peerId = peer
          · rw [if_pos (by simpa using hpeer)] at hinsert
            exact .inr ⟨signed, List.mem_cons_self, hpeer, (Option.some.inj hinsert).symm⟩
          · rw [if_neg (by simpa using hpeer)] at hinsert
            exact .inl hinsert
        · exact .inr ⟨other, List.mem_cons_of_mem _ hmem, hpeer, heq⟩

/-- The ways a message can be routed. -/
theorem route_cases (s : OpaqueRouter) (source : Except RelayError Unit) (routed : RoutedControl) :
    (source = .ok () ∧ s.validateLocalDestination routed.destination = .ok () ∧
        (s.queue routed.destination).length < s.queueCapacity ∧
        s.route source routed = (.ok (),
          s.setQueue routed.destination (s.queue routed.destination ++ [routed.envelope]))) ∨
      ∃ e, s.route source routed = (.error e, s) ∨
        s.route source routed =
          (.error e, s.setQueue routed.destination (s.queue routed.destination)) := by
  unfold route
  split
  · exact .inr ⟨_, .inl rfl⟩
  · split
    · exact .inr ⟨_, .inl rfl⟩
    · next hdestination =>
      unfold enqueue
      split
      · exact .inr ⟨_, .inr rfl⟩
      · next hroom => exact .inl ⟨rfl, hdestination, by omega, rfl⟩

theorem queue_route (s : OpaqueRouter) (source : Except RelayError Unit) (routed : RoutedControl) :
    s.queue peer ++ (if routed.destination = peer ∧ (silent (s.route source routed)).1.isOk then
        [routed.envelope] else []) =
      (s.route source routed).2.queue peer := by
  rcases s.route_cases source routed with ⟨-, -, -, h⟩ | ⟨e, h | h⟩
  · rw [h, queue_setQueue]
    by_cases hpeer : routed.destination = peer
    · simp [hpeer, silent, Except.map, Except.isOk, Except.toBool]
    · simp [hpeer]
  · rw [h]
    simp [silent, Except.map, Except.isOk, Except.toBool]
  · rw [h, queue_setQueue]
    by_cases hpeer : routed.destination = peer
    · simp [hpeer, silent, Except.map, Except.isOk, Except.toBool]
    · simp [hpeer]

/-- The two ways of installing a directory. -/
theorem installDirectory_cases (s : OpaqueRouter) (update : SignedPeerDirectory) :
    s.installDirectory update = (.error .directory, s) ∨
      s.installDirectory update = (.ok (), { s with
        directoryCredentials := credentialsOf update.directory
        directoryRevision := some update.directory.revision
        controlQueues := s.controlQueues.filter fun peer _ =>
          (credentialsOf update.directory).contains peer }) := by
  unfold installDirectory
  split
  · exact .inl rfl
  · exact .inr rfl

/-- What drops a queue leaves nothing of it, and keeps all others. -/
theorem queue_eq_of_drops (peer : PeerId) (s : OpaqueRouter) {op : Op}
    (h : (∃ update, op = .installDirectory update) ∨ (∃ detached generation,
      op = .detach detached generation) ∨ ∃ serial, op = .revoke serial) :
    (s.step op).queue peer = if drops peer s op then [] else s.queue peer := by
  rcases h with ⟨update, rfl⟩ | ⟨detached, generation, rfl⟩ | ⟨serial, rfl⟩
  · rw [step, call, silent, drops, answer, call, silent]
    rcases s.installDirectory_cases update with h | h
    · rw [h]
      rfl
    · rw [h]
      have hkept := s.queue_filter (credentialsOf update.directory).contains peer
      rw [(credentialsOf_spec update.directory peer).1] at hkept
      refine hkept.trans ?_
      cases enables update.directory peer <;> rfl
  · rw [step, call, drops, detach]
    by_cases hpeer : detached = peer
    · subst hpeer
      by_cases hattached : (s.attachments[detached]?).any (·.generation = generation) = true
      · simp [hattached, queue]
      · simp [hattached]
    · have hnot : (decide (detached = peer) &&
          (s.attachments[peer]?).any (·.generation = generation)) = false := by simp [hpeer]
      rw [hnot, if_neg Bool.false_ne_true]
      split
      · simp [queue, ExtTreeMap.getElem?_erase, hpeer]
      · rfl
  · rw [step, call, drops, revoke]
    have hall : ∀ credentials : Option (ExtTreeSet CredentialSerial),
        credentials.all (!·.contains serial) = !credentials.any (·.contains serial) := by
      rintro (_ | credentials) <;> rfl
    have hkept := s.queue_filter
      (fun peer => (s.directoryCredentials[peer]?).all (!·.contains serial)) peer
    rw [hall] at hkept
    refine hkept.trans ?_
    cases (s.directoryCredentials[peer]?).any (·.contains serial) <;> rfl

/-- **One call.** What joins the queue of a peer, and what leaves it. -/
theorem queue_step (peer : PeerId) (s : OpaqueRouter) (op : Op) :
    s.queue peer ++ accepted peer s op =
      (departed peer s op).map Prod.fst ++ (s.step op).queue peer := by
  have hdeparted : (departed peer s op).map Prod.fst = returned peer s op ++ dropped peer s op := by
    simp [departed, Function.comp_def]
  -- The three calls that can drop a queue add and return nothing.
  have hdrop : (s.step op).queue peer = (if drops peer s op then [] else s.queue peer) →
      s.queue peer ++ [] = [] ++ dropped peer s op ++ (s.step op).queue peer := by
    intro h
    rw [h, dropped]
    by_cases hdrops : drops peer s op = true
    · simp [hdrops]
    · simp [hdrops]
  rw [hdeparted]
  cases op with
  | installDirectory update => exact hdrop (queue_eq_of_drops peer s (.inl ⟨update, rfl⟩))
  | installAttachment attachment =>
      have hsame : (s.installAttachment attachment).queue peer = s.queue peer := by
        unfold installAttachment
        split <;> rfl
      simp [accepted, returned, dropped, drops, step, call, hsame]
  | detach detached generation =>
      exact hdrop (queue_eq_of_drops peer s (.inr (.inl ⟨detached, generation, rfl⟩)))
  | observeFence observed generation =>
      have hsame : (s.observeFence observed generation).2.queue peer = s.queue peer := by
        unfold observeFence
        split <;> rfl
      simp [accepted, returned, dropped, drops, step, call, silent, hsame]
  | revoke serial => exact hdrop (queue_eq_of_drops peer s (.inr (.inr ⟨serial, rfl⟩)))
  | routeControl routed => exact s.queue_route _ routed
  | routeAuthenticatedControl routed => exact s.queue_route _ routed
  | acceptCrossRelayControl routed => exact s.queue_route _ routed
  | receiveControl receiver generation =>
      simp only [accepted, returned, dropped, drops, answer, step, call, receiveControl]
      cases s.validateControlSource receiver generation with
      | error e => simp
      | ok _ =>
          cases hqueue : s.queue receiver with
          | nil => simp
          | cons envelope rest =>
              simp only [queue_setQueue]
              by_cases hpeer : receiver = peer
              · subst hpeer
                simp [hqueue]
              · simp [hpeer]

/-- A call that fails moves nothing. -/
theorem queue_of_error {op : Op} {e : RelayError} (h : s.answer op = .error e) :
    (s.step op).queue peer = s.queue peer := by
  have hstep := queue_step peer s op
  have hin : accepted peer s op = [] := by
    cases op <;> simp [accepted, h, Except.isOk, Except.toBool]
  have hout : departed peer s op = [] := by
    cases op with
    | installDirectory update =>
        simp [departed, returned, dropped, drops, h, Except.isOk, Except.toBool]
    | detach detached generation => cases h
    | revoke serial => cases h
    | _ => simp [departed, returned, dropped, drops, h]
  rw [hin, hout, List.append_nil] at hstep
  exact hstep.symm

/-- A message is accepted only where there is room for it. -/
theorem accepted_room (peer : PeerId) (s : OpaqueRouter) (op : Op) :
    accepted peer s op = [] ∨
      (accepted peer s op).length = 1 ∧ (s.queue peer).length < s.queueCapacity := by
  have hroute : ∀ (source : Except RelayError Unit) (routed : RoutedControl),
      (if routed.destination = peer ∧ (silent (s.route source routed)).1.isOk then
        [routed.envelope] else []) = [] ∨
      (if routed.destination = peer ∧ (silent (s.route source routed)).1.isOk then
        [routed.envelope] else []).length = 1 ∧ (s.queue peer).length < s.queueCapacity := by
    intro source routed
    by_cases hpeer : routed.destination = peer
    · subst hpeer
      rcases s.route_cases source routed with ⟨-, -, hroom, h⟩ | ⟨e, h | h⟩
      · exact .inr ⟨by simp [h, silent, Except.map, Except.isOk, Except.toBool], hroom⟩
      · exact .inl (by simp [h, silent, Except.map, Except.isOk, Except.toBool])
      · exact .inl (by simp [h, silent, Except.map, Except.isOk, Except.toBool])
    · exact .inl (by simp [hpeer])
  cases op with
  | routeControl routed => exact hroute _ routed
  | routeAuthenticatedControl routed => exact hroute _ routed
  | acceptCrossRelayControl routed => exact hroute _ routed
  | _ => exact .inl rfl

/-! ## Fences, revocations and credentials -/

/-- The generations a call installs or observes for a peer. -/
def raised (peer : PeerId) : Op → List Int64
  | .installAttachment attachment =>
    if attachment.role = .primary ∧ attachment.peerId = peer then [attachment.generation] else []
  | .observeFence observed generation => if observed = peer then [generation] else []
  | _ => []

/-- The fence once a generation is heard of. -/
def raise (fence : Option Int64) (generation : Int64) : Option Int64 :=
  if fence.any (generation < ·) then fence else some generation

/-- A directory was accepted that meets the condition. -/
def Installs (condition : PeerDirectory → Prop) (s : OpaqueRouter) (op : Op) : Prop :=
  ∃ update, op = .installDirectory update ∧ (s.answer op).isOk = true ∧ condition update.directory

/-- What a call does to the fields other than the queues and attachments. -/
structure Stepped (s : OpaqueRouter) (op : Op) (s' : OpaqueRouter) : Prop where
  queueCapacity : s'.queueCapacity = s.queueCapacity
  knownFences : ∀ peer, s'.knownFences[peer]? = (raised peer op).foldl raise s.knownFences[peer]?
  revoked : ∀ serial, serial ∈ s'.revoked ↔ serial ∈ s.revoked ∨ op = .revoke serial
  directoryCredentials :
    s'.directoryCredentials = s.directoryCredentials ∧ ¬ Installs (fun _ => True) s op ∨
      Installs (fun directory => s'.directoryCredentials = credentialsOf directory) s op

theorem Stepped.of_same {op : Op} {s' : OpaqueRouter} (hcapacity : s'.queueCapacity = s.queueCapacity)
    (hfences : s'.knownFences = s.knownFences) (hraised : ∀ peer, raised peer op = [])
    (hrevoked : s'.revoked = s.revoked) (hrevoke : ∀ serial, op ≠ .revoke serial)
    (hcredentials : s'.directoryCredentials = s.directoryCredentials)
    (hinstall : ¬ Installs (fun _ => True) s op) : Stepped s op s' where
  queueCapacity := hcapacity
  knownFences peer := by rw [hfences, hraised, List.foldl_nil]
  revoked serial := by simp [hrevoked, hrevoke serial]
  directoryCredentials := .inl ⟨hcredentials, hinstall⟩

/-- What routing changes of the router is a queue. -/
theorem route_frame (s : OpaqueRouter) (source : Except RelayError Unit) (routed : RoutedControl) :
    (s.route source routed).2 = s ∨ ∃ destination envelopes,
      (s.route source routed).2 = s.setQueue destination envelopes := by
  rcases s.route_cases source routed with ⟨-, -, -, h⟩ | ⟨e, h | h⟩
  · exact .inr ⟨_, _, by rw [h]⟩
  · exact .inl (by rw [h])
  · exact .inr ⟨_, _, by rw [h]⟩

theorem receiveControl_frame (s : OpaqueRouter) (receiver : PeerId) (generation : Int64) :
    (s.receiveControl receiver generation).2 = s ∨ ∃ destination envelopes,
      (s.receiveControl receiver generation).2 = s.setQueue destination envelopes := by
  unfold receiveControl
  split
  · exact .inl rfl
  · split
    · exact .inl rfl
    · exact .inr ⟨_, _, rfl⟩

theorem raise_of_all {fence : Option Int64} {generation : Int64} :
    fence.all (· ≤ generation) = !fence.any (generation < ·) := by
  cases fence with
  | none => rfl
  | some f =>
      have hiff : decide (f ≤ generation) = !decide (generation < f) := by
        rw [← decide_not]
        exact decide_eq_decide.mpr Int64.not_lt.symm
      simpa using hiff

/-- **One call**, but for the queues and attachments. -/
theorem stepped (s : OpaqueRouter) (op : Op) : Stepped s op (s.step op) := by
  have hnot : ∀ {op : Op}, (∀ update, op ≠ .installDirectory update) →
      ¬ Installs (fun _ => True) s op := fun hop ⟨update, heq, _⟩ => hop update heq
  -- the calls that route and receive change queues only
  have hframe : ∀ {op : Op} {s' : OpaqueRouter}, (s' = s ∨ ∃ destination envelopes,
      s' = s.setQueue destination envelopes) → (∀ peer, raised peer op = []) →
      (∀ serial, op ≠ .revoke serial) → (∀ update, op ≠ .installDirectory update) →
      Stepped s op s' := by
    rintro op s' (rfl | ⟨destination, envelopes, rfl⟩) hraised hrevoke hinstall
    · exact .of_same rfl rfl hraised rfl hrevoke rfl (hnot hinstall)
    · exact .of_same rfl rfl hraised rfl hrevoke rfl (hnot hinstall)
  cases op with
  | installDirectory update =>
      have hanswer : (s.answer (.installDirectory update)).isOk =
          (s.installDirectory update).1.isOk := by
        rw [answer, call, silent]
        cases (s.installDirectory update).1 <;> rfl
      rw [step, call, silent]
      rcases s.installDirectory_cases update with h | h
      · refine .of_same (by rw [h]) (by rw [h]) (fun _ => rfl) (by rw [h]) nofun (by rw [h]) ?_
        rintro ⟨_, ⟨⟩, hok, -⟩
        rw [hanswer, h] at hok
        cases hok
      · refine ⟨by rw [h], fun _ => by rw [h]; rfl, fun serial => by rw [h]; simp, .inr ?_⟩
        exact ⟨update, rfl, by rw [hanswer, h]; rfl, by rw [h]⟩
  | installAttachment attachment =>
      refine ⟨?_, fun peer => ?_, fun serial => ?_, .inl ⟨?_, hnot nofun⟩⟩
      · rw [step, call, installAttachment]
        split <;> rfl
      · simp only [step, call, installAttachment, raised]
        by_cases hrole : attachment.role = .primary
        · by_cases hpeer : attachment.peerId = peer
          · subst hpeer
            simp only [hrole, decide_true, Bool.true_and, raise_of_all, true_and, if_true,
              List.foldl_cons, List.foldl_nil, raise]
            cases (s.knownFences[attachment.peerId]?).any (attachment.generation < ·) <;> simp
          · have hnone : ¬ (attachment.role = .primary ∧ attachment.peerId = peer) :=
              fun h => hpeer h.2
            simp only [if_neg hnone, List.foldl_nil]
            split
            · simp [ExtTreeMap.getElem?_insert, hpeer]
            · rfl
        · simp [hrole]
      · rw [step, call, installAttachment]
        split <;> simp
      · rw [step, call, installAttachment]
        split <;> rfl
  | detach detached generation =>
      rw [step, call, detach]
      split
      · exact .of_same rfl rfl (fun _ => rfl) rfl nofun rfl (hnot nofun)
      · exact .of_same rfl rfl (fun _ => rfl) rfl nofun rfl (hnot nofun)
  | observeFence observed generation =>
      refine ⟨?_, fun peer => ?_, fun serial => ?_, .inl ⟨?_, hnot nofun⟩⟩
      · rw [step, call, silent, observeFence]
        split <;> rfl
      · simp only [step, call, silent, observeFence, raised]
        by_cases hpeer : observed = peer
        · subst hpeer
          simp only [if_true, List.foldl_cons, List.foldl_nil, raise]
          split <;> simp
        · rw [if_neg hpeer, List.foldl_nil]
          split
          · rfl
          · simp [ExtTreeMap.getElem?_insert, hpeer]
      · rw [step, call, silent, observeFence]
        split <;> simp
      · rw [step, call, silent, observeFence]
        split <;> rfl
  | revoke serial =>
      refine ⟨rfl, fun _ => rfl, fun other => ?_, .inl ⟨rfl, hnot nofun⟩⟩
      rw [step, call, revoke, ExtTreeSet.mem_insert, LawfulEqOrd.compare_eq_iff_eq, or_comm,
        Op.revoke.injEq]
  | routeControl routed => exact hframe (s.route_frame _ routed) (fun _ => rfl) nofun nofun
  | routeAuthenticatedControl routed =>
      exact hframe (s.route_frame _ routed) (fun _ => rfl) nofun nofun
  | acceptCrossRelayControl routed =>
      exact hframe (s.route_frame _ routed) (fun _ => rfl) nofun nofun
  | receiveControl receiver generation =>
      exact hframe (s.receiveControl_frame receiver generation) (fun _ => rfl) nofun nofun

/-! ## Fences over a run -/

theorem le_raise (fence generation : Int64) :
    ∃ raised, raise (some fence) generation = some raised ∧ fence ≤ raised := by
  unfold raise
  split
  · exact ⟨fence, rfl, Int64.le_refl _⟩
  · next h =>
    rw [Option.any_some, decide_eq_true_eq, Int64.not_lt] at h
    exact ⟨generation, rfl, h⟩

theorem le_foldl_raise (fence : Int64) (generations : List Int64) :
    ∃ raised, generations.foldl raise (some fence) = some raised ∧ fence ≤ raised := by
  induction generations generalizing fence with
  | nil => exact ⟨fence, rfl, Int64.le_refl _⟩
  | cons generation generations ih =>
      obtain ⟨next, hnext, hle⟩ := le_raise fence generation
      obtain ⟨last, hlast, hle'⟩ := ih next
      exact ⟨last, by rw [List.foldl_cons, hnext, hlast], Int64.le_trans hle hle'⟩

theorem eq_nil_of_foldl_raise {generations : List Int64}
    (h : generations.foldl raise none = none) : generations = [] := by
  cases generations with
  | nil => rfl
  | cons generation generations =>
      obtain ⟨fence, hfence, -⟩ := le_foldl_raise generation generations
      rw [List.foldl_cons, raise, Option.any_none, if_neg Bool.false_ne_true, hfence] at h
      cases h

/-- The fence is the largest generation heard of. -/
theorem foldl_raise_top {generations : List Int64} {fence : Int64}
    (h : generations.foldl raise none = some fence) :
    fence ∈ generations ∧ ∀ generation ∈ generations, generation ≤ fence := by
  induction generations using List.reverseRecOn generalizing fence with
  | nil => cases h
  | append_singleton generations generation ih =>
      rw [List.foldl_append, List.foldl_cons, List.foldl_nil, raise] at h
      split at h
      · next hkept =>
        obtain ⟨hmem, htop⟩ := ih h
        rw [h, Option.any_some, decide_eq_true_eq] at hkept
        refine ⟨List.mem_append_left _ hmem, fun other hother => ?_⟩
        rcases List.mem_append.mp hother with hother | hother
        · exact htop other hother
        · rw [List.mem_singleton.mp hother]
          exact Int64.le_of_lt hkept
      · next hraised =>
        cases h
        refine ⟨by simp, fun other hother => ?_⟩
        rcases List.mem_append.mp hother with hother | hother
        · cases hfence : generations.foldl raise none with
          | none =>
              rw [eq_nil_of_foldl_raise hfence] at hother
              cases hother
          | some fence =>
              have hle := (ih hfence).2 other hother
              rw [hfence, Option.any_some, decide_eq_true_eq, Int64.not_lt] at hraised
              exact Int64.le_trans hle hraised
        · rw [List.mem_singleton.mp hother]
          exact Int64.le_refl _

theorem run_knownFences (s : OpaqueRouter) (peer : PeerId) (ops : List Op) :
    (s.run ops).knownFences[peer]? = (ops.flatMap (raised peer)).foldl raise s.knownFences[peer]? := by
  induction ops generalizing s with
  | nil => rfl
  | cons op ops ih =>
      rw [run, exec_cons, ← run, ih, (stepped s op).knownFences, List.flatMap_cons, List.foldl_append]

/-! ## Histories -/

/-- The directory has an enabled entry for the peer that lists the credential. -/
def Lists (peer : PeerId) (serial : CredentialSerial) (directory : PeerDirectory) : Prop :=
  ∃ signed ∈ directory.entries, signed.entry.enabled = true ∧ signed.entry.peerId = peer ∧
    (signed.entry.credentialSerial = serial ∨
      ∃ binding ∈ signed.entry.acceptedCredentials, binding.serial = serial)

theorem lists_of_mem {directory : PeerDirectory} {credentials : ExtTreeSet CredentialSerial}
    {serial : CredentialSerial} (h : (credentialsOf directory)[peer]? = some credentials)
    (hserial : serial ∈ credentials) : Lists peer serial directory := by
  obtain ⟨signed, hmem, henabled, hpeer, rfl⟩ := (credentialsOf_spec directory peer).2 _ h
  refine ⟨signed, hmem, henabled, hpeer, ?_⟩
  rw [acceptedSerials, ExtTreeSet.mem_insert, LawfulEqOrd.compare_eq_iff_eq,
    ExtTreeSet.mem_ofList, List.contains_iff_mem, List.mem_map] at hserial
  exact hserial

/-- What the state of a router says of its history. -/
structure Inv (start : OpaqueRouter) (ops : List Op) (s : OpaqueRouter) : Prop where
  queueCapacity : s.queueCapacity = start.queueCapacity
  queue_le : ∀ peer, (s.queue peer).length ≤ start.queueCapacity
  revoked : ∀ serial, Op.revoke serial ∈ ops → serial ∈ s.revoked
  listed : ∀ peer credentials serial, s.directoryCredentials[peer]? = some credentials →
    serial ∈ credentials → Since step start (Installs (Lists peer serial)) (Installs fun _ => True) ops

theorem Inv.empty (meshId : MeshId) (verifier : DirectoryPublicKey) (crypto : Crypto)
    (queueCapacity : Nat) : Inv (empty meshId verifier crypto queueCapacity) []
      (empty meshId verifier crypto queueCapacity) where
  queueCapacity := rfl
  queue_le peer := by simp [queue, OpaqueRouter.empty]
  revoked serial h := by cases h
  listed peer credentials serial h := by simp [OpaqueRouter.empty] at h

theorem Inv.step {start : OpaqueRouter} {ops : List Op} (h : Inv start ops (exec step start ops))
    (op : Op) : Inv start (ops ++ [op]) (step (exec OpaqueRouter.step start ops) op) := by
  have hstepped := stepped (exec OpaqueRouter.step start ops) op
  refine ⟨hstepped.queueCapacity.trans h.queueCapacity, fun peer => ?_, fun serial hserial => ?_, ?_⟩
  · have hlength := congrArg List.length (queue_step peer (exec OpaqueRouter.step start ops) op)
    have hle := h.queue_le peer
    rw [List.length_append, List.length_append] at hlength
    rcases accepted_room peer (exec OpaqueRouter.step start ops) op with hnone | ⟨hone, hroom⟩
    · rw [hnone, List.length_nil] at hlength
      omega
    · rw [h.queueCapacity] at hroom
      omega
  · rw [hstepped.revoked]
    rcases List.mem_append.mp hserial with hserial | hserial
    · exact .inl (h.revoked serial hserial)
    · exact .inr (List.mem_singleton.mp hserial).symm
  · intro peer credentials serial hcredentials hserial
    rcases hstepped.directoryCredentials with ⟨hsame, hnone⟩ | ⟨update, hop, hok, hnew⟩
    · rw [hsame] at hcredentials
      exact (h.listed peer credentials serial hcredentials hserial).concat hnone
    · rw [hnew] at hcredentials
      exact since_now ⟨update, hop, hok, lists_of_mem hcredentials hserial⟩

section Runs

variable {meshId : MeshId} {verifier : DirectoryPublicKey} {crypto : Crypto} {queueCapacity : Nat}

theorem Inv.run (ops : List Op) :
    Inv (OpaqueRouter.empty meshId verifier crypto queueCapacity) ops
      ((OpaqueRouter.empty meshId verifier crypto queueCapacity).run ops) :=
  exec_history (I := Inv _) (.empty meshId verifier crypto queueCapacity)
    (fun _ op h => h.step op) ops

/-- What a router has checked of a session it serves: its generation is the largest one installed or
observed for the peer, and its credential is listed by the current directory and was never revoked. -/
structure Fenced (start : OpaqueRouter) (ops : List Op) (peer : PeerId) (generation : Int64) :
    Prop where
  heard : generation ∈ ops.flatMap (raised peer)
  largest : ∀ other ∈ ops.flatMap (raised peer), other ≤ generation
  attached : ∃ attachment, (start.run ops).attachments[peer]? = some attachment ∧
    attachment.generation = generation ∧ Op.revoke attachment.credentialSerial ∉ ops ∧
    Since step start (Installs (Lists peer attachment.credentialSerial)) (Installs fun _ => True) ops

theorem fenced_of_validate {ops : List Op} {generation : Int64}
    (h : ((empty meshId verifier crypto queueCapacity).run ops).validateControlSource peer
      generation = .ok ()) :
    Fenced (empty meshId verifier crypto queueCapacity) ops peer generation := by
  have hinv : Inv (empty meshId verifier crypto queueCapacity) ops _ := .run ops
  unfold validateControlSource at h
  split at h
  · cases h
  · next attachment hattached =>
    simp only [rejectIf_eq_ok, Bool.or_eq_false_iff, decide_eq_false_iff_not, not_not,
      Bool.not_eq_false', current, Bool.and_eq_true, decide_eq_true_eq, Bool.not_eq_true',
      Option.any_eq_true] at h
    obtain ⟨rfl, ⟨hfence, hrevoked⟩, credentials, hlisted, hserial⟩ := h
    rw [run_knownFences, empty, ExtTreeMap.getElem?_empty] at hfence
    obtain ⟨hheard, htop⟩ := foldl_raise_top hfence
    refine ⟨hheard, htop, attachment, hattached, rfl, fun hrevoke => ?_, ?_⟩
    · have hmem := hinv.revoked _ hrevoke
      rw [← ExtTreeSet.contains_iff_mem, hrevoked] at hmem
      cases hmem
    · exact hinv.listed _ _ _ hlisted (ExtTreeSet.contains_iff_mem.mp hserial)

/-- A queue is dropped for one of three causes. -/
theorem cause_of_dropped {ops : List Op} {op : Op}
    (h : dropped peer ((empty meshId verifier crypto queueCapacity).run ops) op ≠ []) :
    (∃ attachment, ((empty meshId verifier crypto queueCapacity).run ops).attachments[peer]? =
        some attachment ∧ op = .detach peer attachment.generation) ∨
      (∃ update, op = .installDirectory update ∧
        (((empty meshId verifier crypto queueCapacity).run ops).answer op).isOk = true ∧
        ∀ signed ∈ update.directory.entries, signed.entry.peerId = peer →
          signed.entry.enabled = false) ∨
      ∃ serial, op = .revoke serial ∧ Since step (empty meshId verifier crypto queueCapacity)
        (Installs (Lists peer serial)) (Installs fun _ => True) ops := by
  have hinv : Inv (empty meshId verifier crypto queueCapacity) ops _ := .run ops
  have hdrops : drops peer ((empty meshId verifier crypto queueCapacity).run ops) op = true := by
    by_contra hnot
    exact h (by rw [dropped, if_neg hnot])
  cases op with
  | detach detached generation =>
      simp only [drops, Bool.and_eq_true, decide_eq_true_eq, Option.any_eq_true] at hdrops
      obtain ⟨rfl, attachment, hattached, rfl⟩ := hdrops
      exact .inl ⟨attachment, hattached, rfl⟩
  | installDirectory update =>
      simp only [drops, Bool.and_eq_true, Bool.not_eq_true', enables, List.any_eq_false,
        decide_eq_true_eq, not_and] at hdrops
      refine .inr (.inl ⟨update, rfl, hdrops.1, fun signed hmem hpeer => ?_⟩)
      by_contra henabled
      exact hdrops.2 signed hmem (by simpa using henabled) hpeer
  | revoke serial =>
      simp only [drops, Option.any_eq_true] at hdrops
      obtain ⟨credentials, hlisted, hserial⟩ := hdrops
      exact .inr (.inr ⟨serial, rfl,
        hinv.listed _ _ _ hlisted (ExtTreeSet.contains_iff_mem.mp hserial)⟩)
  | _ => cases hdrops

end Runs

/-- **The router honours fences and accounts for every message.** In every run fences only rise;
messages are routed for and handed to the session with the largest generation and a listed, never
revoked credential only; the messages accepted for a peer are those that left its queue, in order,
followed by those still in it, and those that left it were received or dropped; a failed call moves
nothing; and a queue is dropped only by detaching the attached generation, by a directory without an
enabled entry for the peer, or by revoking a credential the current directory lists for it. -/
theorem run_routes (meshId : MeshId) (verifier : DirectoryPublicKey) (crypto : Crypto)
    (queueCapacity : Nat) (ops : List Op) :
    let start := empty meshId verifier crypto queueCapacity
    let s := start.run ops
    (∀ (peer : PeerId) (fence : Int64) (more : List Op), s.knownFences[peer]? = some fence →
      ∃ later, (start.run (ops ++ more)).knownFences[peer]? = some later ∧ fence ≤ later) ∧
    (∀ routed, (s.answer (.routeControl routed)).isOk = true →
      Fenced start ops routed.source routed.generation) ∧
    (∀ peer generation, (s.answer (.receiveControl peer generation)).isOk = true →
      Fenced start ops peer generation) ∧
    (∀ peer, gather step (accepted peer) start ops =
        (gather step (departed peer) start ops).map Prod.fst ++ s.queue peer ∧
      gather step (returned peer) start ops =
        ((gather step (departed peer) start ops).filter Prod.snd).map Prod.fst) ∧
    (∀ peer, (s.queue peer).length ≤ queueCapacity) ∧
    (∀ op e, s.answer op = .error e → ∀ peer, (s.step op).queue peer = s.queue peer) ∧
    ∀ op peer, dropped peer s op ≠ [] →
      (∃ attachment, s.attachments[peer]? = some attachment ∧
        op = .detach peer attachment.generation) ∨
      (∃ update, op = .installDirectory update ∧ (s.answer op).isOk = true ∧
        ∀ signed ∈ update.directory.entries, signed.entry.peerId = peer →
          signed.entry.enabled = false) ∨
      ∃ serial, op = .revoke serial ∧
        Since step start (Installs (Lists peer serial)) (Installs fun _ => True) ops := by
  intro start s
  refine ⟨?_, ?_, ?_, ?_, (Inv.run ops).queue_le, fun op e h peer => queue_of_error h,
    fun op peer h => cause_of_dropped h⟩
  · intro peer fence more hfence
    have hrun : start.run (ops ++ more) = s.run more := exec_append _ _ _ _
    rw [hrun, run_knownFences, hfence]
    exact le_foldl_raise fence _
  · intro routed hok
    have hanswer : s.answer (.routeControl routed) = (silent (s.routeControl routed)).1 := rfl
    rw [hanswer, routeControl] at hok
    rcases s.route_cases (s.validateControlSource routed.source routed.generation) routed with
      ⟨hsource, -⟩ | ⟨e, h | h⟩
    · exact fenced_of_validate hsource
    · rw [h] at hok
      cases hok
    · rw [h] at hok
      cases hok
  · intro peer generation hok
    have hanswer : s.answer (.receiveControl peer generation) =
        (s.receiveControl peer generation).1 := rfl
    rw [hanswer, receiveControl] at hok
    cases hsource : s.validateControlSource peer generation with
    | error e =>
        rw [hsource] at hok
        cases hok
    | ok _ => exact fenced_of_validate hsource
  · intro peer
    -- what has joined a queue has left it or is in it
    have hconserves := gather_conserves (queue_step peer) start ops
    have hempty : start.queue peer = [] := by simp [start, empty, queue]
    rw [hempty, List.nil_append] at hconserves
    refine ⟨?_, ?_⟩
    · rw [hconserves, gather_map step (departed peer) (List.map Prod.fst) rfl
        (fun _ _ => List.map_append)]
      rfl
    · have hreturned : ∀ s op, returned peer s op =
          ((departed peer s op).filter Prod.snd).map Prod.fst := by
        intro s op
        simp [departed, List.filter_map, Function.comp_def]
      rw [gather_map step (departed peer) (fun l => (l.filter Prod.snd).map Prod.fst) rfl
        (fun _ _ => by rw [List.filter_append, List.map_append])]
      exact congrArg (gather step · start ops) (funext₂ hreturned)

/-! ## A disabled entry -/

def oneMesh : MeshId := ⟨0x00000000000040008000000000000001#128, Types.random_one⟩
def onePeer : PeerId := ⟨0x00000000000040008000000000000002#128, Types.random_two⟩
def oneSerial : CredentialSerial := ⟨0x00000000000040008000000000000003#128, Types.random_three⟩

/-- A directory of one peer. -/
def oneDirectory (revision : Nat) (enabled : Bool) : SignedPeerDirectory where
  directory :=
    { meshId := oneMesh
      revision
      entries :=
        [{ entry :=
            { meshId := oneMesh, peerId := onePeer, address := .v4 0x0a000001#32
              secondaryAddress := none, identityPublicKey := 3, noisePublicKey := 4
              credentialSerial := oneSerial
              acceptedCredentials := [⟨oneSerial, 3, 4, 5, 0, 50, none, []⟩]
              enabled, notAfter := 50 }
           signature := [] }] }
  signature := []

/-- A router whose signature checks all pass, with one message in its queue. -/
def oneQueued : OpaqueRouter :=
  (empty oneMesh ⟨fun _ _ => true, fun _ _ => true, fun _ _ => true⟩
    ⟨fun _ _ _ => true, fun _ _ _ => true, fun _ _ _ => true, fun _ _ _ => true, fun _ => true⟩ 1).run
      [.installDirectory (oneDirectory 1 true),
        .installAttachment ⟨onePeer, oneMesh, .primary, 9, oneSerial⟩,
        .acceptCrossRelayControl ⟨onePeer, onePeer, 9, { message := some (.keepalive 1) }⟩]

/-- A directory that still has the peer, but disables it, drops its queue as well. -/
theorem disabled_entry_drops_queue :
    oneQueued.queue onePeer = [{ message := some (.keepalive 1) }] ∧
      (oneQueued.answer (.installDirectory (oneDirectory 2 false))).isOk = true ∧
      (oneDirectory 2 false).directory.entries.any (·.entry.peerId = onePeer) = true ∧
      (oneQueued.step (.installDirectory (oneDirectory 2 false))).queue onePeer = [] := by
  decide +kernel

end Peerward.Relay.OpaqueRouter
