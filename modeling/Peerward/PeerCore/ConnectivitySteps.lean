import Peerward.Lib.Run
import Peerward.PeerCore.Connectivity

/-!
# What one operation does to a track

Two things about a track matter later: which checks are in flight, and which path is verified with
which proofs. `Evolves` says that neither appears from nowhere while a poll works on the track; an
answer is the only thing that verifies a path, and whatever changes candidates leaves the track
blank.
-/

namespace Peerward.PeerCore

open Std Peerward.Lib Peerward.Net
open Peerward.Types (Key)

/-! ## Size proofs

How large a size check is on the wire follows from its padding and the family of the address it goes to.
Only the answer to such a check proves a size.
-/

namespace Mtu

variable {mtu : Mtu} {now limit : Nat}

@[simp] theorem chooseTarget_proof : (mtu.chooseTarget now).proof = mtu.proof := by
  unfold chooseTarget
  split
  · rfl
  · split <;> rfl

@[simp] theorem failed_proof : (mtu.failed now limit).proof = mtu.proof := by
  unfold failed
  split
  · rfl
  · dsimp only
    split
    · rfl
    · split
      · rfl
      · rw [chooseTarget_proof]

@[simp] theorem markSent_proof : (mtu.markSent now).proof = mtu.proof := rfl

@[simp] theorem confirm_proof : (mtu.confirm limit now).proof = some (limit, now) := by
  unfold confirm
  dsimp only
  split
  · rfl
  · rw [chooseTarget_proof]

theorem retarget_proof {ceiling : Nat} {ipv6 : Bool} {p : Nat × Nat}
    (h : (mtu.retarget ceiling ipv6).proof = some p) : mtu.proof = some p := by
  unfold retarget at h
  split at h
  · exact h
  · cases h

/-- The search for the next size drops a proof or keeps it. -/
theorem next_proof {ceiling interval : Nat} {ipv6 : Bool} {p : Nat × Nat}
    (h : (mtu.next ceiling ipv6 now interval).2.proof = some p) : mtu.proof = some p := by
  unfold next at h
  dsimp only at h
  split at h
  · exact retarget_proof h
  · split at h
    · split at h
      · exact retarget_proof h
      · exact retarget_proof h
    · exact retarget_proof h

end Mtu

/-- What a message from the address proves when it is answered: nothing about sizes, or a ciphertext
size. A size check is padded to its size, and its headers depend on the address family. -/
def Proves (address : Option IpAddr) (message : Message) (limit : Option Nat) : Prop :=
  (message = .probe ∧ limit = none) ∨
    ∃ own padding, address = some own ∧ message = .mtuProbe padding ∧
      limit = some (32 + padding + if own.isIpv6 = true then 76 else 56)

theorem proves_of_probeOf {mtu limit : Nat} {own : IpAddr} {message : Message}
    (h : probeOf mtu own.isIpv6 = some (message, limit)) : Proves (some own) message (some limit) := by
  have hsplit : ∀ overhead : Nat, (if mtu < overhead then none
      else if mtu - overhead = 0 || mtu - overhead > MAX_PROBE_PADDING then none
      else some (Message.mtuProbe (mtu - overhead), 32 + mtu)) = some (message, limit) →
        message = .mtuProbe (mtu - overhead) ∧ limit = 32 + (mtu - overhead) + overhead := by
    intro overhead h
    split at h
    · cases h
    · split at h
      · cases h
      · obtain ⟨rfl, rfl⟩ : Message.mtuProbe _ = message ∧ 32 + mtu = limit := by simpa using h
        exact ⟨rfl, by omega⟩
  obtain ⟨hmessage, hlimit⟩ := hsplit (if own.isIpv6 = true then 76 else 56) h
  exact .inr ⟨own, _, rfl, hmessage, congrArg some hlimit⟩

theorem Mtu.proves_next {mtu : Mtu} {ceiling now interval limit : Nat} {own : IpAddr}
    {message : Message} (h : (mtu.next ceiling own.isIpv6 now interval).1 = some (message, limit)) :
    Proves (some own) message (some limit) := by
  unfold next at h
  dsimp only at h
  split at h
  · cases h
  · split at h
    · split at h
      · cases h
      · exact proves_of_probeOf h
    · exact proves_of_probeOf h

/-! ## Tracks

A poll and a message change a track in few ways. `Evolves`, `Answers` and `Blank` are these ways, with
every other check and proof left as it was.
-/

/-- One of the messages is the check, sent to `remote` under the generation by the holder of the
addresses. -/
def Emits (address : Key → Option IpAddr) (sends : List Send) (generation : Nat) (remote : Key)
    (transaction : Transaction) (check : Check) : Prop :=
  ∃ send ∈ sends, send.remote = remote ∧ send.endpoint = some check.route.endpoint ∧
    send.source = check.route.source ∧ send.coordination.generation = generation ∧
    send.coordination.transaction = transaction ∧
    Proves (address send.localKey) send.coordination.message check.ciphertextLimit

namespace Track

variable {track old new mid : Track} {now generation : Nat} {remote : Key} {sends : List Send}
  {address : Key → Option IpAddr}

/-- The verified path was verified before, with every proof it has now. -/
def KeepsVerified (old new : Track) : Prop :=
  ∀ verified, new.verified = some verified →
    ∃ before, old.verified = some before ∧ verified.route = before.route ∧
      verified.confirmed = before.confirmed ∧
      ∀ p, verified.mtu.proof = some p → before.mtu.proof = some p

theorem KeepsVerified.refl (track : Track) : KeepsVerified track track :=
  fun verified h => ⟨verified, h, rfl, rfl, fun _ => id⟩

theorem KeepsVerified.trans (h₁ : KeepsVerified old mid) (h₂ : KeepsVerified mid new) :
    KeepsVerified old new := by
  intro verified hnew
  obtain ⟨before, hmid, hroute, hconfirmed, hproof⟩ := h₂ verified hnew
  obtain ⟨first, hold, hroute', hconfirmed', hproof'⟩ := h₁ before hmid
  exact ⟨first, hold, hroute.trans hroute', hconfirmed.trans hconfirmed', fun p hp => hproof' p (hproof p hp)⟩

theorem KeepsVerified.of_eq (h : new.verified = old.verified) : KeepsVerified old new := by
  intro verified hnew
  exact KeepsVerified.refl old verified (h ▸ hnew)

/-- A change of the size search that keeps or drops proofs. -/
theorem KeepsVerified.of_map {f : Verified → Verified} (h : new.verified = old.verified.map f)
    (hroute : ∀ v, (f v).route = v.route) (hconfirmed : ∀ v, (f v).confirmed = v.confirmed)
    (hproof : ∀ v p, (f v).mtu.proof = some p → v.mtu.proof = some p) : KeepsVerified old new := by
  intro verified hnew
  rw [h, Option.map_eq_some_iff] at hnew
  obtain ⟨before, hbefore, rfl⟩ := hnew
  exact ⟨before, hbefore, hroute before, hconfirmed before, hproof before⟩

/-- Checks in flight are old or sent now; the verified path is an old one. -/
structure Evolves (address : Key → Option IpAddr) (generation now : Nat) (remote : Key)
    (sends : List Send) (old new : Track) : Prop where
  pending : ∀ (transaction : Transaction) (check : Check), new.pending[transaction]? = some check →
    old.pending[transaction]? = some check ∨
      (check.sent = now ∧ Emits address sends generation remote transaction check)
  verified : KeepsVerified old new

theorem Evolves.of_eq (hpending : new.pending = old.pending) (hverified : new.verified = old.verified) :
    Evolves address generation now remote [] old new :=
  ⟨fun _ _ h => .inl (hpending ▸ h), .of_eq hverified⟩

theorem Evolves.mono {more : List Send} (h : Evolves address generation now remote sends old new)
    (hsub : ∀ send ∈ sends, send ∈ more) : Evolves address generation now remote more old new := by
  refine ⟨fun transaction check hnew => (h.pending transaction check hnew).imp_right ?_, h.verified⟩
  rintro ⟨hsent, send, hmem, hrest⟩
  exact ⟨hsent, send, hsub send hmem, hrest⟩

theorem Evolves.trans {more : List Send} (h₁ : Evolves address generation now remote sends old mid)
    (h₂ : Evolves address generation now remote more mid new) :
    Evolves address generation now remote (sends ++ more) old new := by
  refine ⟨fun transaction check hnew => ?_, h₁.verified.trans h₂.verified⟩
  rcases h₂.pending transaction check hnew with hmid | hsent
  · have hfirst : Evolves address generation now remote (sends ++ more) old mid :=
      h₁.mono fun send hmem => List.mem_append_left _ hmem
    exact hfirst.pending transaction check hmid
  · obtain ⟨hsent, send, hmem, hrest⟩ := hsent
    exact .inr ⟨hsent, send, List.mem_append_right _ hmem, hrest⟩

theorem fail_spec (track : Track) (check : Check) :
    (fail now track check).pending = track.pending ∧ KeepsVerified track (fail now track check) := by
  unfold fail
  split
  · exact ⟨rfl, .of_eq rfl⟩
  · refine ⟨rfl, .of_map rfl ?_ ?_ ?_⟩
    · intro v
      split <;> rfl
    · intro v
      split <;> rfl
    · intro v p hp
      split at hp
      · rwa [Mtu.failed_proof] at hp
      · exact hp

theorem evolves_expirePending (track : Track) :
    Evolves address generation now remote [] track (track.expirePending now) := by
  have hfold : ∀ (checks : List Check) (track : Track),
      KeepsVerified track (checks.foldl (fail now) track) := by
    intro checks
    induction checks with
    | nil => exact KeepsVerified.refl
    | cons check checks ih => exact fun track => (fail_spec track check).2.trans (ih _)
  refine ⟨fun transaction check h => .inl ?_, hfold _ track⟩
  change (track.pending.filter _)[transaction]? = some check at h
  rw [ExtTreeMap.getElem?_filter', Option.filter_eq_some_iff] at h
  exact h.1

theorem evolves_advertise (track : Track) (candidates : List SocketAddr) :
    Evolves address generation now remote [] track (track.advertise generation candidates remote now).2 := by
  unfold advertise
  split <;> exact .of_eq rfl rfl

theorem seekAlternative_spec (verified : Route) (turns : Nat) (track : Track) :
    (seekAlternative verified now turns track).2.pending = track.pending ∧
      (seekAlternative verified now turns track).2.verified = track.verified := by
  induction turns generalizing track with
  | zero => exact ⟨rfl, rfl⟩
  | succ turns ih =>
      unfold seekAlternative
      split
      · exact ⟨rfl, rfl⟩
      · dsimp only
        split
        · exact ⟨rfl, rfl⟩
        · exact ih track.advance

theorem seekRoutes_spec (turns : Nat) (track : Track) :
    (seekRoutes turns track).2.pending = track.pending ∧
      (seekRoutes turns track).2.verified = track.verified := by
  induction turns generalizing track with
  | zero => exact ⟨rfl, rfl⟩
  | succ turns ih =>
      unfold seekRoutes
      split
      · exact ⟨rfl, rfl⟩
      · exact ih track.advance

theorem seek_spec (track : Track) (idle : Bool) (available : Nat) :
    (track.seek idle available now).2.pending = track.pending ∧
      (track.seek idle available now).2.verified = track.verified := by
  unfold seek
  split
  · split
    · split
      · exact seekAlternative_spec _ _ track
      · exact ⟨rfl, rfl⟩
    · exact seekRoutes_spec _ track
  · exact seekRoutes_spec _ track

theorem seekSize_spec (track : Track) (interval mtu : Nat) (own : Option IpAddr) :
    Evolves address generation now remote [] track (track.seekSize interval now mtu own).2 ∧
      (track.seekSize interval now mtu own).2.localKey = track.localKey ∧
      ∀ target ∈ (track.seekSize interval now mtu own).1,
        Proves own target.message target.ciphertextLimit := by
  unfold seekSize
  split
  · rename_i verified own hverified
    split
    · dsimp only
      have hkeeps : KeepsVerified track { track with verified := some { verified with
          mtu := (verified.mtu.next mtu own.isIpv6 now interval).2 } } := by
        intro v hv
        cases hv
        exact ⟨verified, hverified, rfl, rfl, fun p hp => Mtu.next_proof hp⟩
      split
      · rename_i message limit hfound
        refine ⟨⟨fun _ _ h => .inl h, hkeeps⟩, rfl, fun target htarget => ?_⟩
        rw [List.mem_singleton.mp htarget]
        exact Mtu.proves_next hfound
      · exact ⟨⟨fun _ _ h => .inl h, hkeeps⟩, rfl, fun _ hmem => by cases hmem⟩
    · exact ⟨.of_eq rfl rfl, rfl, fun _ hmem => by cases hmem⟩
  · exact ⟨.of_eq rfl rfl, rfl, fun _ hmem => by cases hmem⟩

theorem localKey_markSize (track : Track) (limit : Option Nat) :
    (track.markSize limit now).localKey = track.localKey := by
  unfold markSize
  split <;> rfl

theorem evolves_putInFlight (target : Target) (transaction : Transaction)
    (h : Proves (address track.localKey) target.message target.ciphertextLimit) :
    Evolves address generation now remote [track.checkMessage generation remote transaction target]
      track ((track.markSize target.ciphertextLimit now).putInFlight transaction
        { route := target.route, sent := now, ciphertextLimit := target.ciphertextLimit }) := by
  have hmark : (track.markSize target.ciphertextLimit now).pending = track.pending := by
    unfold markSize
    split <;> rfl
  refine ⟨fun transaction' check hcheck => ?_, ?_⟩
  · simp only [putInFlight, hmark, ExtTreeMap.getElem?_insert,
      LawfulEqOrd.compare_eq_iff_eq] at hcheck
    split at hcheck
    · rename_i heq
      cases hcheck
      exact .inr ⟨rfl, _, List.mem_singleton.mpr rfl, rfl, rfl, rfl, rfl, heq, h⟩
    · exact .inl hcheck
  · show KeepsVerified track _
    unfold markSize
    split
    · exact .of_map rfl (fun _ => rfl) (fun _ => rfl) fun _ _ hp => hp
    · exact .of_eq rfl

/-- Every check the loop puts in flight is sent. -/
theorem evolves_sendChecks (chance : Chance) (targets : List Target) (available : Nat) (track : Track)
    (h : ∀ target ∈ targets,
      Proves (address track.localKey) target.message target.ciphertextLimit) :
    Evolves address generation now remote
      (track.sendChecks chance generation remote now targets available).1 track
      (track.sendChecks chance generation remote now targets available).2.2 := by
  induction targets generalizing available track with
  | nil => exact .of_eq rfl rfl
  | cons target rest ih =>
      unfold sendChecks
      split
      · exact .of_eq rfl rfl
      · split
        · exact .of_eq rfl rfl
        · -- one check goes out, the rest of the loop follows
          have hfirst := @evolves_putInFlight track now generation remote address target
            (chance.fresh remote rest.length) (h target List.mem_cons_self)
          refine hfirst.trans (ih _ _ fun target' hmem => ?_)
          show Proves (address (track.markSize target.ciphertextLimit now).localKey) _ _
          rw [localKey_markSize]
          exact h target' (List.mem_cons_of_mem _ hmem)

theorem evolves_checkPaths (chance : Chance) (mtu available interval : Nat)
    (address : Key → Option IpAddr) (idle : Bool) (track : Track) :
    Evolves address generation now remote
      (track.checkPaths chance generation remote now mtu address available idle interval).1 track
      (track.checkPaths chance generation remote now mtu address available idle interval).2.2 := by
  unfold checkPaths
  dsimp only
  have hseek := @seek_spec now track idle available
  generalize track.seek idle available now = sought at hseek ⊢
  obtain ⟨hsize, hkey, hproves⟩ := @seekSize_spec now generation remote address sought.2 interval mtu
    (address sought.2.localKey)
  generalize sought.2.seekSize interval now mtu (address sought.2.localKey) = sized at hsize hkey hproves ⊢
  have hsend := @evolves_sendChecks now generation remote address chance
    (sought.1.map (⟨·, .probe, none⟩) ++ sized.1) available sized.2 fun target hmem => by
      rcases List.mem_append.mp hmem with hroute | hsized
      · obtain ⟨route, -, rfl⟩ := List.mem_map.mp hroute
        exact .inl ⟨rfl, rfl⟩
      · rw [hkey]
        exact hproves target hsized
  exact ((Evolves.of_eq hseek.1 hseek.2).trans hsize).trans hsend

/-- One turn of a poll. -/
theorem evolves_poll (chance : Chance) (candidates : List SocketAddr) (mtu available : Nat)
    (address : Key → Option IpAddr) (track : Track) :
    Evolves address generation now remote
      (track.poll chance generation candidates remote now mtu address available).1 track
      (track.poll chance generation candidates remote now mtu address available).2.2 := by
  have hadvertise := @evolves_advertise now generation remote address track candidates
  unfold poll
  dsimp only
  generalize track.advertise generation candidates remote now = advertised at hadvertise ⊢
  have hsends : Evolves address generation now remote advertised.1 track advertised.2 :=
    hadvertise.mono fun _ hmem => by cases hmem
  split
  · exact hsends
  · have hstart : Evolves address generation now remote [] advertised.2 (advertised.2.startCheck now) :=
      .of_eq rfl rfl
    exact hsends.trans (hstart.trans (evolves_checkPaths chance mtu available _ address _ _))

/-! ### Messages -/

/-- Nothing in flight and nothing verified. -/
def Blank (track : Track) : Prop := track.pending = ∅ ∧ track.verified = none

/-- The message is an answer to a check in flight, on its route and within a second. -/
def Answers (track : Track) (generation : Nat) (message : Coordination)
    (source localEndpoint : Option SocketAddr) (now : Nat) (check : Check) : Prop :=
  message.message = .probeAck ∧ message.generation = generation ∧
    source = some check.route.endpoint ∧ localEndpoint = check.route.source ∧
    track.pending[message.transaction]? = some check ∧ now - check.sent < seconds 1

theorem receiveProbe_spec (track : Track) (endpoint : SocketAddr)
    (localEndpoint : Option SocketAddr) :
    (track.receiveProbe endpoint localEndpoint).pending = track.pending ∧
      (track.receiveProbe endpoint localEndpoint).verified = track.verified := by
  unfold receiveProbe
  dsimp only
  generalize hfirst : (if !track.candidates.contains endpoint && track.candidates.length < 32 then _
    else track : Track) = first
  have hsame : first.pending = track.pending ∧ first.verified = track.verified := by
    subst hfirst
    split <;> exact ⟨rfl, rfl⟩
  split <;> exact hsame

/-- What an answer leaves: every other check, and the path it was on or the path before it. -/
theorem receiveAck_spec (scaled : Nat → Nat) (track : Track) (transaction : Transaction)
    (check : Check) :
    (∀ (other : Transaction) (found : Check),
      (track.receiveAck scaled transaction check now).pending[other]? = some found →
        track.pending[other]? = some found) ∧
    ∀ verified, (track.receiveAck scaled transaction check now).verified = some verified →
      (track.verified = some verified ∨
        (verified.route = check.route ∧ verified.confirmed = now ∧
          ∀ p, verified.mtu.proof = some p →
            check.ciphertextLimit = some p.1 ∧ p.2 = now ∨
              ∃ before, track.verified = some before ∧ before.route = check.route ∧
                before.mtu.proof = some p)) := by
  have hpending : ∀ (other : Transaction) (found : Check),
      (track.pending.erase transaction)[other]? = some found → track.pending[other]? = some found := by
    intro other found h
    rw [ExtTreeMap.getElem?_erase] at h
    split at h
    · cases h
    · exact h
  unfold receiveAck
  dsimp only
  generalize hsettled : track.settle transaction check (track.measure check now) = settled
  have hsame : settled.pending = track.pending.erase transaction ∧
      settled.verified = track.verified := by
    subst hsettled
    exact ⟨rfl, rfl⟩
  split
  · refine ⟨fun other found h => hpending other found (hsame.1 ▸ h), fun verified h => .inr ?_⟩
    cases h
    refine ⟨rfl, rfl, fun p hp => ?_⟩
    rw [hsame.2] at hp
    cases hlimit : check.ciphertextLimit with
    | some limit =>
        rw [hlimit, Option.elim_some, Mtu.confirm_proof] at hp
        cases hp
        exact .inl ⟨rfl, rfl⟩
    | none =>
        rw [hlimit, Option.elim_none] at hp
        cases hfound : track.verified.filter (·.route = check.route) with
        | none =>
            rw [hfound] at hp
            cases hp
        | some before =>
            rw [hfound] at hp
            obtain ⟨hbefore, hroute⟩ := Option.filter_eq_some_iff.mp hfound
            exact .inr ⟨before, hbefore, of_decide_eq_true hroute, hp⟩
  · exact ⟨fun other found h => hpending other found (hsame.1 ▸ h), fun verified h =>
      .inl (hsame.2 ▸ h)⟩

/-- A message blanks the track, leaves checks and path alone, or answers a check. -/
theorem receive_spec (scaled : Nat → Nat) (track : Track) (generation : Nat)
    (localPaths : Option (List SocketAddr)) (message : Coordination)
    (source localEndpoint : Option SocketAddr) (now : Nat) :
    Blank (track.receive scaled generation localPaths message source localEndpoint now).2 ∨
    (((track.receive scaled generation localPaths message source localEndpoint now).1.isOk = true →
        ∀ endpoints, message.message = .candidates endpoints →
          track.remoteGeneration = some message.generation) ∧
      (track.receive scaled generation localPaths message source localEndpoint now).2.pending
        = track.pending ∧
      (track.receive scaled generation localPaths message source localEndpoint now).2.verified
        = track.verified) ∨
    ∃ check, Answers track generation message source localEndpoint now check ∧
      (track.receive scaled generation localPaths message source localEndpoint now).2
        = track.receiveAck scaled message.transaction check now := by
  unfold receive
  cases hmessage : message.message with
  | gatewayProbe id => exact .inr (.inl ⟨nofun, rfl, rfl⟩)
  | gatewayAck id ready => exact .inr (.inl ⟨nofun, rfl, rfl⟩)
  | candidates endpoints =>
      dsimp only
      split
      · exact .inr (.inl ⟨nofun, rfl, rfl⟩)
      · dsimp only
        unfold receiveCandidates
        split
        · -- the same remote generation keeps the track, and a new one forgets every check
          rename_i hsame
          exact .inr (.inl ⟨fun _ _ _ => hsame, rfl, rfl⟩)
        · exact .inl ⟨rfl, rfl⟩
  | candidatesAck =>
      dsimp only
      split
      · exact .inr (.inl ⟨nofun, rfl, rfl⟩)
      · exact .inr (.inl ⟨fun _ => nofun, rfl, rfl⟩)
  | probe | mtuProbe padding =>
      dsimp only
      split
      · exact .inr (.inl ⟨nofun, rfl, rfl⟩)
      · rename_i endpoint hendpoint
        have hprobe := receiveProbe_spec track endpoint localEndpoint
        exact .inr (.inl ⟨fun _ => nofun, hprobe.1, hprobe.2⟩)
  | probeAck =>
      cases source with
      | none => exact .inr (.inl ⟨nofun, rfl, rfl⟩)
      | some endpoint =>
          dsimp only
          split
          · exact .inr (.inl ⟨nofun, rfl, rfl⟩)
          · rename_i hgeneration
            split
            · exact .inr (.inl ⟨nofun, rfl, rfl⟩)
            · rename_i check hpending
              split
              · exact .inr (.inl ⟨nofun, rfl, rfl⟩)
              · rename_i hroute
                -- an answer that passes all checks is one on its route and in time
                simp only [Bool.or_eq_true, decide_eq_true_eq, not_or, not_not, Nat.not_le] at hroute
                refine .inr (.inr ⟨check, ⟨hmessage, not_not.mp hgeneration, ?_, ?_, hpending,
                  hroute.2⟩, rfl⟩)
                · rw [hroute.1]
                · rw [hroute.1]

end Track

end Peerward.PeerCore
