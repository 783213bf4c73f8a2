import Peerward.PeerCore.ConnectivitySteps

/-!
# A path is used after a round trip on it

Whatever is in flight was sent by a poll, and whatever is verified was answered while in flight,
both since the last change of candidates on either side. So a route that `route` returns has a probe
and its answer behind it, and a route for large datagrams has a size probe and its answer.
-/

namespace Peerward.PeerCore

open Std Peerward.Lib Peerward.Net
open Peerward.Types (Key)

namespace Connectivity

variable {scaled : Nat → Nat} {s start : Connectivity} {ops : List Op} {op : Op}
variable {remote other : Key} {track track' : Track}

/-! ## Tables -/

/-- The generation in use and the ceiling of its range. -/
def lease (s : Connectivity) : Nat × Nat := (s.generation, s.generationCeiling)

theorem put_peers (s : Connectivity) (remote other : Key) (track : Track) :
    (s.put remote track).peers[other]? = if remote = other then some track else s.peers[other]? := by
  simp only [put, ExtTreeMap.getElem?_insert, LawfulEqOrd.compare_eq_iff_eq]

theorem makeRoom_peers {s' : Connectivity} {now : Nat} (h : s.makeRoom now = some s')
    (hother : s'.peers[other]? = some track) : s.peers[other]? = some track := by
  unfold makeRoom at h
  split at h
  · obtain ⟨key, -, rfl⟩ := Option.map_eq_some_iff.mp h
    rw [ExtTreeMap.getElem?_erase] at hother
    split at hother
    · cases hother
    · exact hother
  · cases h
    exact hother

/-- A new track is blank; the others stay or go. -/
theorem enter_peers {localKey : Key} {now : Nat} {fresh : Transaction}
    (h : (touch.enter localKey remote now fresh s).peers[other]? = some track) :
    s.peers[other]? = some track ∨ (other = remote ∧ track.Blank) := by
  unfold touch.enter at h
  split at h
  · exact .inl h
  · rename_i s' hroom
    rw [put_peers] at h
    split at h
    · rename_i heq
      cases h
      exact .inr ⟨heq.symm, rfl, rfl⟩
    · exact .inl (makeRoom_peers hroom h)

theorem touch_peers {localKey : Key} {now : Nat} {fresh : Transaction}
    (h : (s.touch localKey remote now fresh).peers[other]? = some track') :
    track'.Blank ∨ ∃ track, s.peers[other]? = some track ∧ track'.pending = track.pending ∧
      track'.verified = track.verified := by
  unfold touch at h
  split at h
  · rename_i track htrack
    split at h
    · rw [put_peers] at h
      split at h
      · rename_i heq
        cases h
        exact .inr ⟨track, heq ▸ htrack, rfl, rfl⟩
      · exact .inr ⟨track', h, rfl, rfl⟩
    · rcases enter_peers h with hold | ⟨-, hblank⟩
      · rw [ExtTreeMap.getElem?_erase] at hold
        split at hold
        · cases hold
        · exact .inr ⟨track', hold, rfl, rfl⟩
      · exact .inl hblank
  · rcases enter_peers h with hold | ⟨-, hblank⟩
    · exact .inr ⟨track', hold, rfl, rfl⟩
    · exact .inl hblank

theorem touch_lease {localKey : Key} {now : Nat} {fresh : Transaction} :
    (s.touch localKey remote now fresh).lease = s.lease := by
  have henter : ∀ s : Connectivity, (touch.enter localKey remote now fresh s).lease = s.lease := by
    intro s
    unfold touch.enter makeRoom
    by_cases hfull : s.peers.size ≥ MAX_PEERS
    · rw [if_pos hfull]
      cases s.oldestIdle now <;> rfl
    · rw [if_neg hfull]
      rfl
  unfold touch
  split
  · split
    · rfl
    · exact henter _
  · exact henter s

/-- The track a message finds is blank and new, or the one held for its local key. -/
theorem ensureTrack_peers {r : Received} (h : (s.ensureTrack r).peers[other]? = some track) :
    (other = r.remote ∧ track.Blank) ∨
      (s.peers[other]? = some track ∧ (other = r.remote → track.localKey = r.localKey)) := by
  unfold ensureTrack at h
  split at h
  · rename_i hheld
    refine .inr ⟨h, ?_⟩
    rintro rfl
    rw [h] at hheld
    exact of_decide_eq_true hheld
  · rename_i hmissing
    -- the table without the remote, to which the new track is added
    have hadded : ∀ s' : Connectivity, s'.peers[r.remote]? = none →
        (∀ (other : Key) (track : Track), s'.peers[other]? = some track →
          s.peers[other]? = some track) →
        (touch.enter r.localKey r.remote r.now r.fresh s').peers[other]? = some track →
        (other = r.remote ∧ track.Blank) ∨
          (s.peers[other]? = some track ∧ (other = r.remote → track.localKey = r.localKey)) := by
      intro s' hnone hsub henter
      rcases enter_peers henter with hold | hblank
      · refine .inr ⟨hsub _ _ hold, ?_⟩
        rintro rfl
        rw [hnone] at hold
        cases hold
      · exact .inl hblank
    unfold touch at h
    split at h
    · rename_i found hfound
      split at h
      · rename_i hkey
        rw [hfound] at hmissing
        exact absurd (decide_eq_true hkey) hmissing
      · refine hadded _ (by simp) (fun other track hother => ?_) h
        rw [ExtTreeMap.getElem?_erase] at hother
        split at hother
        · cases hother
        · exact hother
    · rename_i hnone
      exact hadded s hnone (fun _ _ => id) h

theorem ensureTrack_lease (s : Connectivity) (r : Received) :
    (s.ensureTrack r).lease = s.lease := by
  unfold ensureTrack
  split
  · rfl
  · exact touch_lease

/-- A message is refused before it reaches a track, finds no room for one, or is delivered. -/
theorem receiveOn_cases (scaled : Nat → Nat) (s : Connectivity) (r : Received) :
    ∃ messages,
      (∃ failure, s.receiveOn scaled r = (.error failure, s.withMessages messages) ∨
        s.receiveOn scaled r = (.error failure, (s.withMessages messages).ensureTrack r)) ∨
      ∃ track, ((s.withMessages messages).ensureTrack r).peers[r.remote]? = some track ∧
        s.receiveOn scaled r = ((s.withMessages messages).ensureTrack r).deliver scaled r track := by
  unfold receiveOn
  split
  · exact ⟨s.messages, .inl ⟨_, .inl rfl⟩⟩
  · refine ⟨(s.messages.allow r.now 1024).2, ?_⟩
    dsimp only
    split
    · exact .inl ⟨_, .inl rfl⟩
    · split
      · exact .inl ⟨_, .inl rfl⟩
      · exact .inl ⟨_, .inl rfl⟩
      · cases htrack : ((s.withMessages (s.messages.allow r.now 1024).2).ensureTrack r).peers[r.remote]? with
        | none => exact .inl ⟨_, .inr rfl⟩
        | some track => exact .inr ⟨track, rfl, rfl⟩

/-! ## Events

The three events a track depends on, as conditions on an operation and the state it runs in: a check is
sent, a check is answered, candidates change.
-/

/-- The poll sends the check. -/
def Sends (remote : Key) (transaction : Transaction) (check : Check) (s : Connectivity) : Op → Prop
  | .poll chance now mtu address => check.sent = now ∧
      Emits address (s.pollWithMtu chance now mtu address).1 s.generation remote transaction check
  | _ => False

/-- The message answers the check in flight. -/
def Answers (remote : Key) (check : Check) (time : Nat) (s : Connectivity) : Op → Prop
  | .receive r => r.remote = remote ∧ r.now = time ∧
      ∃ track, s.peers[remote]? = some track ∧
        track.Answers s.generation r.message r.source r.localEndpoint r.now check
  | _ => False

/-- Candidates change: the local ones, or the generation of the remote's. -/
def Resets (scaled : Nat → Nat) (remote : Key) (s : Connectivity) : Op → Prop
  | .update candidates fresh => (s.update candidates fresh).1.isOk = true
  | .updatePaths local_ candidates fresh => (s.updatePaths local_ candidates fresh).1.isOk = true
  | .resume fresh => (s.resume fresh).1.isOk = true
  | .receive r => r.remote = remote ∧ (s.receiveOn scaled r).1.isOk = true ∧
      (∃ endpoints, r.message.message = .candidates endpoints) ∧
      ¬ (s.peers[remote]?.any fun track =>
        track.localKey = r.localKey && track.remoteGeneration = some r.message.generation) = true
  | _ => False

/-- Where the checks and the path of a track come from. -/
structure Continues (scaled : Nat → Nat) (remote : Key) (s : Connectivity) (op : Op)
    (track track' : Track) : Prop where
  quiet : ¬ Resets scaled remote s op
  pending : ∀ (transaction : Transaction) (check : Check),
    track'.pending[transaction]? = some check →
      track.pending[transaction]? = some check ∨ Sends remote transaction check s op
  verified : ∀ verified, track'.verified = some verified →
    (∃ before, track.verified = some before ∧ verified.route = before.route ∧
      verified.confirmed = before.confirmed ∧
      ∀ p, verified.mtu.proof = some p → before.mtu.proof = some p) ∨
    ∃ check time, Answers remote check time s op ∧ verified.route = check.route ∧
      verified.confirmed = time ∧
      ∀ p, verified.mtu.proof = some p → check.ciphertextLimit = some p.1 ∧ p.2 = time ∨
        ∃ before, track.verified = some before ∧ before.route = check.route ∧
          before.mtu.proof = some p

theorem Continues.of_eq (hquiet : ¬ Resets scaled remote s op)
    (hpending : track'.pending = track.pending) (hverified : track'.verified = track.verified) :
    Continues scaled remote s op track track' :=
  ⟨hquiet, fun _ _ h => .inl (hpending ▸ h), fun verified h =>
    .inl (Track.KeepsVerified.of_eq hverified verified h)⟩

/-! ## One step

Every operation either blanks a track or continues it: a check in flight was there or is sent now, and a
verified path was there or is answered now.
-/

theorem update_blank {candidates : List SocketAddr} {fresh : Key → Transaction}
    (hok : (s.update candidates fresh).1.isOk = true)
    (h : (s.update candidates fresh).2.peers[remote]? = some track) : track.Blank := by
  unfold update at hok h
  split at hok
  · cases hok
  · rename_i hvalid
    rw [hvalid] at h
    dsimp only at h
    split at hok
    · cases hok
    · rename_i hroom
      rw [if_neg hroom] at h
      split at hok
      · cases hok
      · rename_i hwidth
        rw [if_neg hwidth, ExtTreeMap.getElem?_map, Option.map_eq_some_iff] at h
        obtain ⟨before, -, rfl⟩ := h
        exact ⟨rfl, rfl⟩

theorem update_failed {candidates : List SocketAddr} {fresh : Key → Transaction}
    (hok : ¬ (s.update candidates fresh).1.isOk = true) : (s.update candidates fresh).2 = s := by
  unfold update at hok ⊢
  split
  · rfl
  · rename_i hvalid
    rw [hvalid] at hok
    dsimp only at hok
    split
    · rfl
    · rename_i hroom
      rw [if_neg hroom] at hok
      split
      · rfl
      · rename_i hwidth
        rw [if_neg hwidth] at hok
        exact absurd rfl hok

/-- `update_paths` is refused without effect, or is an `update` with other pairs. -/
theorem updatePaths_cases (s : Connectivity) (local_ candidates : List SocketAddr)
    (fresh : Key → Transaction) :
    (¬ (s.updatePaths local_ candidates fresh).1.isOk = true ∧
      (s.updatePaths local_ candidates fresh).2 = s) ∨
    ((s.updatePaths local_ candidates fresh).1.isOk = true ∧
      (s.update candidates fresh).1.isOk = true ∧
      (s.updatePaths local_ candidates fresh).2.generation
        = (s.update candidates fresh).2.generation ∧
      (s.updatePaths local_ candidates fresh).2.peers = (s.update candidates fresh).2.peers.map
        fun _ track => { track with pairs := PeerCore.pairs (some local_) track.candidates }) := by
  unfold updatePaths
  split
  · exact .inl ⟨nofun, rfl⟩
  · split
    · exact .inl ⟨nofun, rfl⟩
    · split
      · exact .inl ⟨nofun, rfl⟩
      · split
        · rename_i s' failure hfailed
          refine .inl ⟨nofun, ?_⟩
          have hsame : ¬ (s.update candidates fresh).1.isOk = true := by
            rw [hfailed]
            nofun
          exact hfailed ▸ update_failed hsame
        · rename_i s' hok
          exact .inr ⟨rfl, by rw [hok]; rfl, by rw [hok], by rw [hok]⟩

theorem pollTracks_evolves (chance : Track.Chance) (now mtu : Nat) (address : Key → Option IpAddr)
    (keys : List Key) (available : Nat) (s : Connectivity)
    (h : (pollTracks chance now mtu address keys available s).2.peers[remote]? = some track') :
    ∃ track, s.peers[remote]? = some track ∧
      Track.Evolves address s.generation now remote
        (pollTracks chance now mtu address keys available s).1 track track' := by
  induction keys generalizing available s with
  | nil => exact ⟨track', h, .of_eq rfl rfl⟩
  | cons key rest ih =>
      unfold pollTracks at h ⊢
      split at h
      · exact ih available s h
      · rename_i found hfound
        dsimp only at h ⊢
        obtain ⟨mid, hmid, hevolves⟩ := ih _ _ h
        rw [put_peers] at hmid
        split at hmid
        · rename_i heq
          subst heq
          cases hmid
          exact ⟨found, hfound, (Track.evolves_poll chance s.candidates mtu available address found).trans hevolves⟩
        · exact ⟨mid, hmid, hevolves.mono fun send hmem => List.mem_append_right _ hmem⟩

theorem pollWithMtu_evolves (chance : Track.Chance) (now mtu : Nat) (address : Key → Option IpAddr)
    (s : Connectivity)
    (h : (s.pollWithMtu chance now mtu address).2.peers[remote]? = some track') :
    ∃ track, s.peers[remote]? = some track ∧
      Track.Evolves address s.generation now remote (s.pollWithMtu chance now mtu address).1 track track' := by
  obtain ⟨mid, hmid, hevolves⟩ := pollTracks_evolves chance now mtu address _ _ _ h
  rw [ExtTreeMap.getElem?_map, Option.map_eq_some_iff] at hmid
  obtain ⟨track, htrack, rfl⟩ := hmid
  exact ⟨track, htrack, (Track.evolves_expirePending track).trans hevolves⟩

theorem countMessage_spec (track : Track) (now : Nat) :
    (track.countMessage now).pending = track.pending ∧
      (track.countMessage now).verified = track.verified ∧
      (track.countMessage now).remoteGeneration = track.remoteGeneration := by
  unfold Track.countMessage
  dsimp only
  split <;> exact ⟨rfl, rfl, rfl⟩

/-- What a delivered message makes of its track. -/
theorem deliver_cases (scaled : Nat → Nat) (s : Connectivity) (r : Received) (track : Track) :
    ∃ new, (s.deliver scaled r track).2 = s.put r.remote new ∧
      (new.Blank ∨
        (((s.deliver scaled r track).1.isOk = true → ∀ endpoints,
            r.message.message = .candidates endpoints →
              track.remoteGeneration = some r.message.generation) ∧
          new.pending = track.pending ∧ new.verified = track.verified) ∨
        ∃ check, track.Answers s.generation r.message r.source r.localEndpoint r.now check ∧
          ∃ counted : Track, counted.pending = track.pending ∧ counted.verified = track.verified ∧
            new = counted.receiveAck scaled r.message.transaction check r.now) := by
  obtain ⟨hpending, hverified, hgeneration⟩ := countMessage_spec track r.now
  unfold deliver
  dsimp only
  generalize track.countMessage r.now = counted at hpending hverified hgeneration ⊢
  split
  · exact ⟨counted, rfl, .inr (.inl ⟨nofun, hpending, hverified⟩)⟩
  · have hspec := counted.receive_spec scaled s.generation s.localPaths r.message r.source
      r.localEndpoint r.now
    generalize counted.receive scaled s.generation s.localPaths r.message r.source r.localEndpoint
      r.now = received at hspec ⊢
    obtain ⟨result, new⟩ := received
    have hcases : new.Blank ∨ ((result.isOk = true → ∀ endpoints,
            r.message.message = .candidates endpoints →
              track.remoteGeneration = some r.message.generation) ∧
          new.pending = track.pending ∧ new.verified = track.verified) ∨
        ∃ check, track.Answers s.generation r.message r.source r.localEndpoint r.now check ∧
          ∃ counted : Track, counted.pending = track.pending ∧ counted.verified = track.verified ∧
            new = counted.receiveAck scaled r.message.transaction check r.now := by
      rcases hspec with hblank | ⟨hsame, hp, hv⟩ | ⟨check, hanswers, hnew⟩
      · exact .inl hblank
      · exact .inr (.inl ⟨fun hok endpoints hm => hgeneration ▸ hsame hok endpoints hm,
          hp.trans hpending, hv.trans hverified⟩)
      · refine .inr (.inr ⟨check, ?_, counted, hpending, hverified, hnew⟩)
        unfold Track.Answers at hanswers ⊢
        rwa [hpending] at hanswers
    cases result with
    | error failure => exact ⟨new, rfl, hcases⟩
    | ok reply => exact ⟨new, rfl, hcases⟩

/-- The step of one message. -/
theorem receive_track {r : Received}
    (h : (step scaled s (.receive r)).peers[remote]? = some track') :
    track'.Blank ∨ ∃ track, s.peers[remote]? = some track ∧
      Continues scaled remote s (.receive r) track track' := by
  change (s.receiveOn scaled r).2.peers[remote]? = some track' at h
  obtain ⟨messages, hcases⟩ := receiveOn_cases scaled s r
  have hensure : ∀ track : Track,
      ((s.withMessages messages).ensureTrack r).peers[remote]? = some track →
        track.Blank ∨ (s.peers[remote]? = some track ∧
          (remote = r.remote → track.localKey = r.localKey)) := by
    intro track htrack
    exact (ensureTrack_peers htrack).imp_left And.right
  rcases hcases with ⟨failure, hfailed⟩ | ⟨track, htrack, hdelivered⟩
  · -- a refused message resets nothing
    have hquiet : ¬ Resets scaled remote s (.receive r) := by
      rintro ⟨-, hok, -⟩
      rcases hfailed with hfailed | hfailed <;>
      · rw [hfailed] at hok
        cases hok
    rcases hfailed with hfailed | hfailed
    · rw [hfailed] at h
      exact .inr ⟨track', h, .of_eq hquiet rfl rfl⟩
    · rw [hfailed] at h
      exact (hensure track' h).imp_right fun hheld => ⟨track', hheld.1, .of_eq hquiet rfl rfl⟩
  · obtain ⟨new, hput, hnew⟩ := deliver_cases scaled ((s.withMessages messages).ensureTrack r) r track
    rw [← hdelivered] at hput hnew
    rw [hput, put_peers] at h
    split at h
    · rename_i heq
      subst heq
      cases h
      -- the delivered message blanked the track, left it, or answered a check of it
      rcases hnew with hblank | ⟨hsame, hp, hv⟩ | ⟨check, hanswers, counted, hp, hv, rfl⟩
      · exact .inl hblank
      · rcases hensure track htrack with hblank | ⟨hheld, hkey⟩
        · exact .inl ⟨hp.trans hblank.1, hv.trans hblank.2⟩
        · refine .inr ⟨track, hheld, .of_eq ?_ hp hv⟩
          rintro ⟨-, hok, ⟨endpoints, hm⟩, hchanged⟩
          rw [hheld] at hchanged
          refine hchanged ?_
          rw [Option.any_some, Bool.and_eq_true, decide_eq_true_eq, decide_eq_true_eq]
          exact ⟨hkey rfl, hsame hok endpoints hm⟩
      · rcases hensure track htrack with hblank | ⟨hheld, hkey⟩
        · -- a blank track has nothing in flight to answer
          obtain ⟨-, -, -, -, hflight, -⟩ := hanswers
          rw [hblank.1] at hflight
          simp at hflight
        · have hgeneration : ((s.withMessages messages).ensureTrack r).generation = s.generation :=
            congrArg Prod.fst (ensureTrack_lease (s.withMessages messages) r)
          rw [hgeneration] at hanswers
          obtain ⟨hpending, hverified⟩ := counted.receiveAck_spec scaled r.message.transaction check
          refine .inr ⟨track, hheld, ⟨?_, fun transaction found hfound => .inl ?_, fun verified hnew => ?_⟩⟩
          · rintro ⟨-, -, ⟨endpoints, hm⟩, -⟩
            rw [hanswers.1] at hm
            cases hm
          · exact hp ▸ hpending transaction found hfound
          · rw [hv] at hverified
            rcases hverified verified hnew with hold | ⟨hroute, htime, hproof⟩
            · exact .inl ⟨verified, hold, rfl, rfl, fun _ => id⟩
            · exact .inr ⟨check, r.now, ⟨rfl, rfl, track, hheld, hanswers⟩, hroute, htime, hproof⟩
    · rename_i hne
      refine (hensure track' h).imp_right fun hheld => ⟨track', hheld.1, .of_eq ?_ rfl rfl⟩
      rintro ⟨heq, -⟩
      exact hne heq

/-- Every operation leaves a track blank or continues the one before. -/
theorem step_track (h : (step scaled s op).peers[remote]? = some track') :
    track'.Blank ∨ ∃ track, s.peers[remote]? = some track ∧
      Continues scaled remote s op track track' := by
  cases op with
  | update candidates fresh =>
      change (s.update candidates fresh).2.peers[remote]? = some track' at h
      by_cases hok : (s.update candidates fresh).1.isOk = true
      · exact .inl (update_blank hok h)
      · rw [update_failed hok] at h
        exact .inr ⟨track', h, .of_eq hok rfl rfl⟩
  | updatePaths local_ candidates fresh =>
      change (s.updatePaths local_ candidates fresh).2.peers[remote]? = some track' at h
      rcases updatePaths_cases s local_ candidates fresh with ⟨hfailed, hsame⟩ | ⟨-, hok, -, hpeers⟩
      · rw [hsame] at h
        exact .inr ⟨track', h, .of_eq hfailed rfl rfl⟩
      · rw [hpeers, ExtTreeMap.getElem?_map, Option.map_eq_some_iff] at h
        obtain ⟨track, htrack, rfl⟩ := h
        have hblank := update_blank hok htrack
        exact .inl ⟨hblank.1, hblank.2⟩
  | resume fresh =>
      change (s.update s.candidates fresh).2.peers[remote]? = some track' at h
      by_cases hok : (s.update s.candidates fresh).1.isOk = true
      · exact .inl (update_blank hok h)
      · rw [update_failed hok] at h
        exact .inr ⟨track', h, .of_eq hok rfl rfl⟩
  | touch localKey remote' now fresh =>
      rcases touch_peers h with hblank | ⟨track, htrack, hp, hv⟩
      · exact .inl hblank
      · exact .inr ⟨track, htrack, .of_eq id hp hv⟩
  | retain authorized =>
      change (s.peers.filter _)[remote]? = some track' at h
      rw [ExtTreeMap.getElem?_filter', Option.filter_eq_some_iff] at h
      exact .inr ⟨track', h.1, .of_eq id rfl rfl⟩
  | poll chance now mtu address =>
      obtain ⟨track, htrack, hevolves⟩ := pollWithMtu_evolves chance now mtu address s h
      exact .inr ⟨track, htrack, id, hevolves.pending, fun verified hv => .inl (hevolves.verified verified hv)⟩
  | receive r => exact receive_track h

theorem pollWithMtu_lease (s : Connectivity) (chance : Track.Chance) (now mtu : Nat)
    (address : Key → Option IpAddr) :
    (s.pollWithMtu chance now mtu address).2.lease = s.lease := by
  have htracks : ∀ (keys : List Key) (available : Nat) (s : Connectivity),
      (pollTracks chance now mtu address keys available s).2.lease = s.lease := by
    intro keys
    induction keys with
    | nil => exact fun _ _ => rfl
    | cons key rest ih =>
        intro available s
        unfold pollTracks
        split
        · exact ih available s
        · exact ih _ _
  exact htracks _ _ _

theorem receiveOn_lease (scaled : Nat → Nat) (s : Connectivity) (r : Received) :
    (s.receiveOn scaled r).2.lease = s.lease := by
  obtain ⟨messages, ⟨failure, hfailed | hfailed⟩ | ⟨track, -, hdelivered⟩⟩ :=
    receiveOn_cases scaled s r
  · rw [hfailed]
    rfl
  · rw [hfailed]
    exact ensureTrack_lease (s.withMessages messages) r
  · obtain ⟨new, hput, -⟩ := deliver_cases scaled ((s.withMessages messages).ensureTrack r) r track
    rw [hdelivered, hput]
    exact ensureTrack_lease (s.withMessages messages) r

/-- Only an accepted local update changes the generation. -/
theorem step_generation (h : ¬ Resets scaled remote s op) :
    (step scaled s op).generation = s.generation := by
  cases op with
  | update candidates fresh => exact congrArg generation (update_failed h)
  | updatePaths local_ candidates fresh =>
      rcases updatePaths_cases s local_ candidates fresh with ⟨-, hsame⟩ | ⟨hok, -⟩
      · exact congrArg generation hsame
      · exact absurd hok h
  | resume fresh => exact congrArg generation (update_failed h)
  | touch localKey remote' now fresh => exact congrArg Prod.fst touch_lease
  | retain authorized => rfl
  | poll chance now mtu address => exact congrArg Prod.fst (pollWithMtu_lease s chance now mtu address)
  | receive r => exact congrArg Prod.fst (receiveOn_lease scaled s r)

/-! ## Every run

A verified path therefore leads back to an answer, and this one to the poll that sent the check. In between
no candidates have changed, or the track would be blank.
-/

section Runs

variable (scaled start ops)

/-- The state a run reaches. -/
def after (ops : List Op) : Connectivity := exec (step scaled) start ops

/-- A poll sent the check, and candidates have not changed since. -/
def InFlight (remote : Key) (transaction : Transaction) (check : Check) : Prop :=
  Since (step scaled) start (Sends remote transaction check) (Resets scaled remote) ops

/-- A check on the route was answered at `time`: a poll sent it, the answer came from the route's
endpoint on its local source less than a second later, and candidates have changed neither between
them nor since. -/
def RoundTrip (remote : Key) (route : Route) (time : Nat) (limit : Option Nat) : Prop :=
  ∃ before r since, ops = before ++ .receive r :: since ∧
    r.remote = remote ∧ r.now = time ∧ r.message.message = .probeAck ∧
    r.message.generation = (after scaled start ops).generation ∧
    r.source = some route.endpoint ∧ r.localEndpoint = route.source ∧
    (∃ first chance sent mtu address between,
      before = first ++ .poll chance sent mtu address :: between ∧ time < sent + seconds 1 ∧
      Emits address ((after scaled start first).pollWithMtu chance sent mtu address).1
        (after scaled start ops).generation remote r.message.transaction ⟨route, sent, limit⟩ ∧
      Along (fun passed op => ¬ Resets scaled remote
        (after scaled start (first ++ .poll chance sent mtu address :: passed)) op) between) ∧
    Along (fun passed op => ¬ Resets scaled remote
      (after scaled start (before ++ .receive r :: passed)) op) since

end Runs

theorem after_concat :
    after scaled start (ops ++ [op]) = step scaled (after scaled start ops) op :=
  exec_concat _ _ _ _

/-- While candidates do not change, the generation stays. -/
theorem generation_of_quiet (before after' : List Op)
    (h : Along (fun passed op => ¬ Resets scaled remote (after scaled start (before ++ passed)) op)
      after') :
    (after scaled start (before ++ after')).generation = (after scaled start before).generation := by
  induction after' using List.reverseRecOn with
  | nil => rw [List.append_nil]
  | append_singleton passed op ih =>
      obtain ⟨hpassed, hop⟩ := along_concat.mp h
      rw [← List.append_assoc, after_concat, step_generation hop]
      exact ih hpassed

theorem RoundTrip.concat {route : Route} {time : Nat} {limit : Option Nat}
    (h : RoundTrip scaled start ops remote route time limit)
    (hop : ¬ Resets scaled remote (after scaled start ops) op) :
    RoundTrip scaled start (ops ++ [op]) remote route time limit := by
  have hgeneration : (after scaled start (ops ++ [op])).generation
      = (after scaled start ops).generation := by
    rw [after_concat, step_generation hop]
  unfold RoundTrip at h ⊢
  rw [hgeneration]
  obtain ⟨before, r, since, rfl, hremote, htime, hack, hgen, hsource, hlocal, hsent, halong⟩ := h
  exact ⟨before, r, since ++ [op], by simp, hremote, htime, hack, hgen, hsource, hlocal, hsent,
    along_concat.mpr ⟨halong, hop⟩⟩

/-- An answer to a check in flight is a round trip. -/
theorem roundTrip_of_answers {check : Check} {time : Nat}
    (hanswers : Answers remote check time (after scaled start ops) op)
    (hquiet : ¬ Resets scaled remote (after scaled start ops) op)
    (hflight : ∀ (track : Track) (transaction : Transaction) (check : Check),
      (after scaled start ops).peers[remote]? = some track →
        track.pending[transaction]? = some check →
          InFlight scaled start ops remote transaction check) :
    RoundTrip scaled start (ops ++ [op]) remote check.route time check.ciphertextLimit := by
  cases op with
  | receive r =>
      obtain ⟨rfl, rfl, track, htrack, hack, hgen, hsource, hlocal, hpending, htime⟩ := hanswers
      have hgeneration : (after scaled start (ops ++ [.receive r])).generation
          = (after scaled start ops).generation := by
        rw [after_concat, step_generation hquiet]
      obtain ⟨first, op', between, rfl, hsends, halong⟩ := hflight track _ check htrack hpending
      cases op' with
      | poll chance sent mtu address =>
          obtain ⟨rfl, hemits⟩ := hsends
          have hsame : (after scaled start (first ++ .poll chance check.sent mtu address ::
              between)).generation = (after scaled start first).generation := by
            have hpoll : ¬ Resets scaled r.remote (after scaled start first)
                (.poll chance check.sent mtu address) := id
            have hbetween := @generation_of_quiet scaled start r.remote
              (first ++ [.poll chance check.sent mtu address]) between (by simpa [after] using halong)
            rw [List.append_cons, hbetween, after_concat, step_generation hpoll]
          refine ⟨_, r, [], rfl, rfl, rfl, hack, hgen.trans hgeneration.symm, hsource, hlocal,
            ⟨first, chance, check.sent, mtu, address, between, rfl, by omega, ?_, halong⟩, along_nil⟩
          rw [hgeneration, hsame]
          exact hemits
      | update _ _ | updatePaths _ _ _ | resume _ | touch _ _ _ _ | retain _ | receive _ =>
          exact hsends.elim
  | update _ _ | updatePaths _ _ _ | resume _ | touch _ _ _ _ | retain _ | poll _ _ _ _ =>
      exact hanswers.elim

/-- What is in flight was sent, and what is verified was answered, since candidates changed. -/
structure Traced (scaled : Nat → Nat) (start : Connectivity) (ops : List Op) (remote : Key)
    (track : Track) : Prop where
  pending : ∀ (transaction : Transaction) (check : Check),
    track.pending[transaction]? = some check → InFlight scaled start ops remote transaction check
  verified : ∀ verified, track.verified = some verified →
    (∃ limit, RoundTrip scaled start ops remote verified.route verified.confirmed limit) ∧
      ∀ p, verified.mtu.proof = some p →
        RoundTrip scaled start ops remote verified.route p.2 (some p.1)

theorem traced_of_blank (h : track.Blank) : Traced scaled start ops remote track := by
  refine ⟨fun transaction check hcheck => ?_, fun verified hverified => ?_⟩
  · rw [h.1] at hcheck
    simp at hcheck
  · rw [h.2] at hverified
    cases hverified

theorem traced (hstart : start.peers = ∅) (ops : List Op) (remote : Key) (track : Track)
    (h : (after scaled start ops).peers[remote]? = some track) :
    Traced scaled start ops remote track := by
  induction ops using List.reverseRecOn generalizing track with
  | nil =>
      change start.peers[remote]? = some track at h
      rw [hstart] at h
      simp at h
  | append_singleton ops op ih =>
      rw [after_concat] at h
      rcases step_track h with hblank | ⟨before, hbefore, hcontinues⟩
      · exact traced_of_blank hblank
      · have htraced := ih before hbefore
        refine ⟨fun transaction check hcheck => ?_, fun verified hverified => ?_⟩
        · rcases hcontinues.pending transaction check hcheck with hold | hsends
          · exact (htraced.pending transaction check hold).concat hcontinues.quiet
          · exact since_now hsends
        · rcases hcontinues.verified verified hverified with
            ⟨old, hold, hroute, hconfirmed, hproof⟩ | ⟨check, time, hanswers, hroute, htime, hproof⟩
          · obtain ⟨⟨limit, htrip⟩, hsizes⟩ := htraced.verified old hold
            rw [hroute, hconfirmed]
            exact ⟨⟨limit, htrip.concat hcontinues.quiet⟩, fun p hp =>
              (hsizes p (hproof p hp)).concat hcontinues.quiet⟩
          · have htrip := roundTrip_of_answers hanswers hcontinues.quiet
              fun track transaction check htrack => (ih track htrack).pending transaction check
            rw [hroute, htime]
            refine ⟨⟨_, htrip⟩, fun p hp => ?_⟩
            rcases hproof p hp with ⟨hlimit, rfl⟩ | ⟨old, hold, hsame, hp⟩
            · exact hlimit ▸ htrip
            · exact hsame ▸ ((htraced.verified old hold).2 p hp).concat hcontinues.quiet

/-! ## Other remotes

Tracks are kept apart by their remote key. There is one way for a message to change another's track: the
table is full and the idlest track makes room.
-/

/-- The fold of `oldestIdle` keeps the earliest entry it has seen. -/
theorem foldl_earliest (entries : List (Key × Track)) (best : Option (Key × Track))
    (found : Key × Track)
    (h : entries.foldl (fun best entry => match best with
      | none => some entry
      | some found => if entry.2.lastActivity < found.2.lastActivity then some entry else best) best
        = some found) :
    (best = some found ∨ found ∈ entries) ∧
      ∀ entry, best = some entry ∨ entry ∈ entries →
        found.2.lastActivity ≤ entry.2.lastActivity := by
  induction entries generalizing best with
  | nil =>
      rw [List.foldl_nil] at h
      refine ⟨.inl h, fun entry hentry => ?_⟩
      rcases hentry with hentry | hentry
      · cases h.symm.trans hentry
        exact Nat.le_refl _
      · cases hentry
  | cons first rest ih =>
      rw [List.foldl_cons] at h
      obtain ⟨hmem, hleast⟩ := ih _ h
      have hrest := fun entry hentry => hleast entry (.inr hentry)
      cases best with
      | none =>
          have hfirst := hleast first (.inl rfl)
          refine ⟨.inr (List.mem_cons.mpr (hmem.imp_left fun heq => (Option.some.inj heq).symm)), ?_⟩
          intro entry hentry
          rcases List.mem_cons.mp (hentry.resolve_left nofun) with rfl | hentry
          · exact hfirst
          · exact hrest entry hentry
      | some old =>
          by_cases hearlier : first.2.lastActivity < old.2.lastActivity
          · simp only [hearlier, if_true] at hmem hleast
            have hfirst := hleast first (.inl rfl)
            refine ⟨.inr (List.mem_cons.mpr (hmem.imp_left fun heq => (Option.some.inj heq).symm)), ?_⟩
            intro entry hentry
            rcases hentry with heq | hentry
            · cases heq
              omega
            · rcases List.mem_cons.mp hentry with rfl | hentry
              · exact hfirst
              · exact hrest entry hentry
          · simp only [hearlier, if_false] at hmem hleast
            have hold := hleast old (.inl rfl)
            refine ⟨hmem.imp_right (List.mem_cons_of_mem _), fun entry hentry => ?_⟩
            rcases hentry with heq | hentry
            · cases heq
              exact hold
            · rcases List.mem_cons.mp hentry with rfl | hentry
              · omega
              · exact hrest entry hentry

/-- The least recently active Peer, of those idle for more than a minute, is the least recently
active of all. -/
theorem oldestIdle_spec {now : Nat} {key : Key} (h : s.oldestIdle now = some key) :
    ∃ track, s.peers[key]? = some track ∧ now - track.lastActivity > seconds 60 ∧
      ∀ (other : Key) (held : Track), s.peers[other]? = some held →
        track.lastActivity ≤ held.lastActivity := by
  unfold oldestIdle at h
  obtain ⟨⟨key', track⟩, hfound, rfl⟩ := Option.map_eq_some_iff.mp h
  obtain ⟨hmem, hleast⟩ := foldl_earliest _ _ _ hfound
  have hidle := List.mem_filter.mp (hmem.resolve_left nofun)
  have hage : now - track.lastActivity > seconds 60 := of_decide_eq_true hidle.2
  refine ⟨track, ExtTreeMap.mem_toList_iff_getElem?_eq_some.mp hidle.1, hage, fun other held hheld => ?_⟩
  by_cases hboth : now - held.lastActivity > seconds 60
  · refine hleast (other, held) (.inr (List.mem_filter.mpr ⟨?_, decide_eq_true hboth⟩))
    exact ExtTreeMap.mem_toList_iff_getElem?_eq_some.mpr hheld
  · omega

/-- A full table drops the track to make room for the one the message needs: no track is held for
the message's keys, and the dropped one is the least recently active and idle for over a minute. -/
def Evicts (s : Connectivity) (r : Received) (other : Key) : Prop :=
  MAX_PEERS ≤ s.peers.size ∧ s.peers[r.remote]?.any (·.localKey = r.localKey) = false ∧
    ∃ track, s.peers[other]? = some track ∧ r.now - track.lastActivity > seconds 60 ∧
      ∀ (key : Key) (held : Track), key ≠ r.remote → s.peers[key]? = some held →
        track.lastActivity ≤ held.lastActivity

theorem enter_other {localKey : Key} {now : Nat} {fresh : Transaction} (hne : other ≠ remote) :
    (touch.enter localKey remote now fresh s).peers[other]? = s.peers[other]? ∨
      (MAX_PEERS ≤ s.peers.size ∧ s.oldestIdle now = some other ∧
        (touch.enter localKey remote now fresh s).peers[other]? = none) := by
  unfold touch.enter makeRoom
  by_cases hfull : s.peers.size ≥ MAX_PEERS
  · rw [if_pos hfull]
    cases hidle : s.oldestIdle now with
    | none => exact .inl rfl
    | some key =>
        show ((Connectivity.put _ remote _).peers[other]? = _) ∨ _
        rw [Option.map_some, put_peers, if_neg (Ne.symm hne), ExtTreeMap.getElem?_erase]
        by_cases hkey : key = other
        · subst hkey
          exact .inr ⟨hfull, rfl, by simp⟩
        · rw [if_neg (by simpa using hkey)]
          exact .inl rfl
  · rw [if_neg hfull]
    refine .inl ?_
    show (s.put remote _).peers[other]? = _
    rw [put_peers, if_neg (Ne.symm hne)]

theorem ensureTrack_other {r : Received} (hne : other ≠ r.remote) :
    (s.ensureTrack r).peers[other]? = s.peers[other]? ∨
      (Evicts s r other ∧ (s.ensureTrack r).peers[other]? = none) := by
  unfold ensureTrack
  split
  · exact .inl rfl
  · rename_i hmissing
    rw [Bool.not_eq_true] at hmissing
    unfold touch
    split
    · rename_i held hheld
      rw [hheld, Option.any_some, decide_eq_false_iff_not] at hmissing
      rw [if_neg hmissing]
      have herase : ∀ key : Key, key ≠ r.remote →
          (s.peers.erase r.remote)[key]? = s.peers[key]? := by
        intro key hkey
        rw [ExtTreeMap.getElem?_erase, if_neg (by simpa using Ne.symm hkey)]
      rw [← herase other hne]
      refine (enter_other hne).imp_right ?_
      rintro ⟨hfull, holdest, hgone⟩
      obtain ⟨track, htrack, hidle, hleast⟩ := oldestIdle_spec holdest
      refine ⟨⟨hfull.trans ExtTreeMap.size_erase_le, ?_, track, ?_, hidle, ?_⟩, hgone⟩
      · rw [hheld, Option.any_some, decide_eq_false_iff_not]
        exact hmissing
      · rw [← herase other hne]
        exact htrack
      · intro key held' hkey hheld'
        exact hleast key held' ((herase key hkey).trans hheld')
    · refine (enter_other hne).imp_right ?_
      rintro ⟨hfull, holdest, hgone⟩
      obtain ⟨track, htrack, hidle, hleast⟩ := oldestIdle_spec holdest
      exact ⟨⟨hfull, hmissing, track, htrack, hidle, fun key held _ => hleast key held⟩, hgone⟩

/-- A message changes no track but its remote's, unless it evicts one. -/
theorem receiveOn_other {r : Received} (hne : other ≠ r.remote) :
    (s.receiveOn scaled r).2.peers[other]? = s.peers[other]? ∨
      (Evicts s r other ∧ (s.receiveOn scaled r).2.peers[other]? = none) := by
  obtain ⟨messages, ⟨failure, hfailed | hfailed⟩ | ⟨track, -, hdelivered⟩⟩ :=
    receiveOn_cases scaled s r
  · rw [hfailed]
    exact .inl rfl
  · rw [hfailed]
    exact @ensureTrack_other (s.withMessages messages) other r hne
  · obtain ⟨new, hput, -⟩ := deliver_cases scaled ((s.withMessages messages).ensureTrack r) r track
    rw [hdelivered, hput, put_peers, if_neg (Ne.symm hne)]
    exact @ensureTrack_other (s.withMessages messages) other r hne

/-! ## Routes

A route is taken from the verified path while its health lasts, and a large datagram is sent on it only if
the path was proved to carry one of its size.
-/

/-- A round trip on the route, recent enough at `now` for the track's health lifetime. -/
def ProvedAt (scaled : Nat → Nat) (start : Connectivity) (ops : List Op) (remote : Key)
    (route : Route) (now : Nat) (limit : Option Nat) : Prop :=
  ∃ track time, (after scaled start ops).peers[remote]? = some track ∧
    RoundTrip scaled start ops remote route time limit ∧ now < time + healthLifetime track now

/-- A direct path is used only after an authenticated round trip on exactly that path, and a large
datagram only after one of its size. A message for one remote leaves the routes of the others, unless
it evicts an idle one. -/
theorem route_follows_a_round_trip (scaled : Nat → Nat)
    (initial begun generation ceiling : Nat) (ops : List Op) (remote : Key) (now length : Nat) :
    let start := (new initial begun).reserveGeneration generation ceiling
    let s := after scaled start ops
    (∀ route, s.route remote now length = some route →
      (∃ limit, ProvedAt scaled start ops remote route now limit) ∧
      (length > 96 → ∃ limit ≥ length, ProvedAt scaled start ops remote route now (some limit))) ∧
    ∀ r : Received, r.remote ≠ remote →
      (step scaled s (.receive r)).route remote now length = s.route remote now length ∨
        (Evicts s r remote ∧ (step scaled s (.receive r)).peers[remote]? = none) := by
  intro start s
  refine ⟨fun route hroute => ?_, fun r hne => ?_⟩
  · obtain ⟨track, htrack, hverified⟩ := Option.bind_eq_some_iff.mp hroute
    obtain ⟨verified, hheld, hused⟩ := Option.bind_eq_some_iff.mp hverified
    have htraced := (traced rfl ops remote track htrack).verified verified hheld
    dsimp only at hused
    split at hused
    · rename_i hrecent
      cases hused
      obtain ⟨hage, hlength⟩ := Bool.and_eq_true_iff.mp hrecent
      have hage := of_decide_eq_true hage
      have hlength := of_decide_eq_true hlength
      obtain ⟨⟨limit, htrip⟩, hsizes⟩ := htraced
      refine ⟨⟨limit, track, verified.confirmed, htrack, htrip, by omega⟩, fun hlarge => ?_⟩
      unfold Mtu.limit at hlength
      split at hlength
      · rename_i proved confirmed hproof
        split at hlength
        · exact ⟨proved, by omega, track, confirmed, htrack, hsizes _ hproof, by omega⟩
        · omega
      · omega
    · cases hused
  · refine (receiveOn_other (Ne.symm hne)).imp_left fun hsame => ?_
    show Option.bind _ _ = Option.bind _ _
    rw [show (step scaled s (.receive r)).peers[remote]? = s.peers[remote]? from hsame]

/-! ## A full table

Two hundred and fifty-six idle tracks, one of them with a good path, and a message from a Peer that has
none.
-/

/-- A track for key 1, its candidate, and after a quiet minute a check with its answer. -/
def proving : List Op :=
  let endpoint := SocketAddr.v4 0x0a000001 4000
  let message (message : Message) (source : Option SocketAddr) (now : Nat) : Op :=
    .receive { localKey := 0, remote := 1, message := { generation := 7, transaction := 5, message },
               source, localEndpoint := none, now, process := some true, fresh := 3 }
  [ .touch 0 1 0 3,
    message (.candidates [endpoint]) none 0,
    .poll { fresh := fun _ _ => 5, permit := fun _ _ => true } (seconds 61) 1400 (fun _ => none),
    message .probeAck (some endpoint) (seconds 61) ]

/-- Traffic to 255 other keys. -/
def crowding : List Op :=
  (List.range 255).map fun i => .touch 0 (BitVec.ofNat 256 (i + 2)) (seconds 61) 3

/-- A message of a Peer that has no track yet. -/
def stranger : Received where
  localKey := 0
  remote := 1000
  message := { generation := 1, transaction := 9, message := .candidates [] }
  source := none
  localEndpoint := none
  now := seconds 61
  process := some true
  fresh := 4

/-- Once the path of key 1 is verified, a check of 1,400 bytes goes out on it and is answered. -/
def sizing : List Op :=
  let endpoint := SocketAddr.v4 0x0a000001 4000
  let message (message : Message) (transaction : Transaction) (source : Option SocketAddr) (now : Nat) : Op :=
    .receive { localKey := 0, remote := 1, message := { generation := 7, transaction, message },
               source, localEndpoint := none, now, process := some true, fresh := 3 }
  let poll (now : Nat) : Op :=
    .poll { fresh := fun _ left => 5 + BitVec.ofNat _ left, permit := fun _ _ => true } now 1400
      (fun _ => some (.v4 0x0a000002))
  [ .touch 0 1 0 3,
    message (.candidates [endpoint]) 5 none 0,
    poll 0,
    message .probeAck 5 (some endpoint) 0,
    -- a check of the path, and one of the size
    poll (seconds 1),
    message .probeAck 5 (some endpoint) (seconds 1) ]

theorem route_of_sizing :
    (after (· * 4 / 5) ((new 7 0).reserveGeneration 7 100) sizing).route 1 (seconds 1) 1432
      = some ⟨.v4 0x0a000001 4000, none⟩ := by
  decide +kernel

/-- The path of key 1 carries datagrams of the size that was answered. -/
theorem proving_follows_a_round_trip :
    let start := (new 7 0).reserveGeneration 7 100
    (after (· * 4 / 5) start sizing).route 1 (seconds 1) 1432 = some ⟨.v4 0x0a000001 4000, none⟩ ∧
      ∃ limit ≥ 1432,
        ProvedAt (· * 4 / 5) start sizing 1 ⟨.v4 0x0a000001 4000, none⟩ (seconds 1) (some limit) :=
  ⟨route_of_sizing,
    ((route_follows_a_round_trip _ 7 0 7 100 sizing 1 (seconds 1) 1432).1 _ route_of_sizing).2
      (by decide)⟩

/-- The message of one Peer takes away the route of another. -/
theorem stranger_changes_a_route :
    let s := after (· * 4 / 5) ((new 7 0).reserveGeneration 7 100) (proving ++ crowding)
    stranger.remote ≠ 1 ∧ s.route 1 (seconds 61) 96 = some ⟨.v4 0x0a000001 4000, none⟩ ∧
      (step (· * 4 / 5) s (.receive stranger)).route 1 (seconds 61) 96 = none := by
  decide +kernel

end Connectivity

end Peerward.PeerCore
