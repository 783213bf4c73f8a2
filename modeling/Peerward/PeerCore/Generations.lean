import Peerward.PeerCore.Checkpoint
import Peerward.PeerCore.PathProof

/-!
# Generations across process lifetimes

The checkpoint reserves a range of generations on disk before an owner runs. Candidate
advertisements and signed management operations take their numbers from that range, so a restarted
process cannot repeat one. The ranges of successive owners do follow each other. Management numbers
stay below the ceiling of their range; path generations may reach it, which is where the next range
starts.
-/

namespace Peerward.PeerCore

open Std Peerward.Lib Peerward.Net
open Peerward.Management (AuthorizationFloor)
open Peerward.Types (CredentialSerial Key MeshId PeerId)

/-- The parts of a runtime that take numbers from the range `open` returned. -/
structure Owner where
  checkpoint : Checkpoint
  start : Nat
  ceiling : Nat
  connectivity : Connectivity
  managementSequence : Nat
  managementCeiling : Nat

namespace Owner

/-- The end of `enable_checkpoint`. -/
def enable (opened : Checkpoint × Nat × Nat) (connectivity : Connectivity) : Owner where
  checkpoint := opened.1
  start := opened.2.1
  ceiling := opened.2.2
  connectivity := connectivity.reserveGeneration opened.2.1 opened.2.2
  managementSequence := opened.2.1
  managementCeiling := opened.2.2

/-- Reserves an operation number from the durable startup range before a signature is created. -/
def nextManagementSequence (owner : Owner) : Except PeerError Nat × Owner :=
  let next := owner.managementSequence + 1
  if next < 2 ^ 64 && next < owner.managementCeiling && next < 2 ^ 63 then
    (.ok next, { owner with managementSequence := next })
  else (.error .invalidConfig, owner)

end Owner

/-- What an operation sends. -/
def Connectivity.sends (scaled : Nat → Nat) (s : Connectivity) : Connectivity.Op → List Send
  | .poll chance now mtu address => (s.pollWithMtu chance now mtu address).1
  | .receive r => match (s.receiveOn scaled r).1 with
    | .ok sends => sends
    | .error _ => []
  | _ => []

/-- A checkpoint directory, the process that holds its lock, and how many have held it. -/
structure Host where
  files : CheckpointFiles
  owner : Option Owner := none
  lifetimes : Nat := 0

namespace Host

inductive Op where
  /-- `enable_checkpoint` by a process that has not opened the directory. -/
  | enable (root : Key) (mesh : MeshId) (peer : PeerId) (now : Nat) (connectivity : Connectivity)
      (outcome : Checkpoint.OpenOutcome)
  /-- The owner exits or crashes and its lock goes. -/
  | close
  | connect (op : Connectivity.Op)
  | nextManagementSequence
  | commit (kind : SnapshotKind) (revision : Nat) (bytes : Bytes) (now : Nat)
      (revoked : List CredentialSerial) (stored : Bool)
  | advanceExpiryFloor (now : Nat) (stored : Bool)
  | commitAuthorization (floor : AuthorizationFloor) (stored : Bool)

variable (enc : Encoding) (scaled : Nat → Nat)

/-- A write that succeeded replaced the state file. -/
def persist (s : Host) (owner : Owner) (written : Except PeerError Checkpoint) : Host :=
  match written with
  | .error _ => s
  | .ok checkpoint =>
    { s with
      files := { s.files with file := .present checkpoint.state }
      owner := some { owner with checkpoint } }

def enableCheckpoint (s : Host) (root : Key) (mesh : MeshId) (peer : PeerId) (now : Nat)
    (connectivity : Connectivity) (outcome : Checkpoint.OpenOutcome) : Host :=
  match Checkpoint.openFiles enc s.files root mesh peer now connectivity.generation outcome with
  | (.error _, files) => { s with files }
  | (.ok opened, files) =>
    { files, owner := some (.enable opened connectivity), lifetimes := s.lifetimes + 1 }

def step (s : Host) (op : Op) : Host :=
  match s.owner, op with
  | none, .enable root mesh peer now connectivity outcome =>
    s.enableCheckpoint enc root mesh peer now connectivity outcome
  | none, _ => s
  -- the lock of the owner that runs
  | some _, .enable .. => s
  | some _, .close => { s with owner := none }
  | some owner, .connect op =>
    { s with owner := some { owner with connectivity := owner.connectivity.step scaled op } }
  | some owner, .nextManagementSequence => { s with owner := some owner.nextManagementSequence.2 }
  | some owner, .commit kind revision bytes now revoked stored =>
    s.persist owner (owner.checkpoint.commit enc kind revision bytes now revoked stored)
  | some owner, .advanceExpiryFloor now stored =>
    s.persist owner (owner.checkpoint.advanceExpiryFloor enc now stored)
  | some owner, .commitAuthorization floor stored =>
    s.persist owner (owner.checkpoint.commitAuthorization enc floor stored)

/-- The generations the operation puts into `Candidates` messages. -/
def advertised (s : Host) (op : Op) : List Nat :=
  match s.owner, op with
  | some owner, .connect op =>
    (owner.connectivity.sends scaled op).filterMap fun send => match send.coordination.message with
      | .candidates _ => some send.coordination.generation
      | _ => none
  | _, _ => []

/-- The values the operation returns from `next_management_sequence`. -/
def sequences (s : Host) (op : Op) : List Nat :=
  match s.owner, op with
  | some owner, .nextManagementSequence => owner.nextManagementSequence.1.toOption.toList
  | _, _ => []

end Host

/-! ## Path generations

Each change of the local candidates takes the next generation of the range that the process has reserved.
Everything a poll sends carries the one in use.
-/

namespace Connectivity

variable {scaled : Nat → Nat} {s : Connectivity} {op : Op}

/-- The operation changes the local candidates to ones that pass their checks. -/
def Takes (s : Connectivity) : Op → Prop
  | .update candidates _ => validateCandidates candidates = .ok ()
  | .updatePaths local_ candidates _ => validateCandidates local_ = .ok () ∧ local_.length ≤ 8 ∧
      validateCandidates candidates = .ok ()
  | .resume _ => validateCandidates s.candidates = .ok ()
  | _ => False

theorem update_eq {candidates : List SocketAddr} {fresh : Key → Transaction}
    (hvalid : validateCandidates candidates = .ok ()) (hroom : s.generation < s.generationCeiling)
    (hwidth : ¬ s.generation + 1 ≥ 2 ^ 64) :
    s.update candidates fresh = (.ok (), { s with
      generation := s.generation + 1
      candidates := candidates
      peers := s.peers.map fun remote track => track.reset s.localPaths (fresh remote) }) := by
  unfold update
  rw [hvalid]
  dsimp only
  rw [if_neg (by omega), if_neg hwidth]

theorem update_lease (s : Connectivity) (candidates : List SocketAddr) (fresh : Key → Transaction) :
    (s.update candidates fresh).2.lease = s.lease ∨
      (validateCandidates candidates = .ok () ∧ s.generation < s.generationCeiling ∧
        (s.update candidates fresh).2.lease = (s.generation + 1, s.generationCeiling)) := by
  unfold update
  split
  · exact .inl rfl
  · rename_i hvalid
    split
    · exact .inl rfl
    · rename_i hroom
      split
      · exact .inl rfl
      · exact .inr ⟨hvalid, by omega, rfl⟩

/-- A step keeps the generation, or takes the next one below the ceiling. -/
theorem step_lease (scaled : Nat → Nat) (s : Connectivity) (op : Op) :
    (step scaled s op).lease = s.lease ∨ (Takes s op ∧ s.generation < s.generationCeiling ∧
      (step scaled s op).lease = (s.generation + 1, s.generationCeiling)) := by
  cases op with
  | update candidates fresh => exact update_lease s candidates fresh
  | updatePaths local_ candidates fresh =>
      show (s.updatePaths local_ candidates fresh).2.lease = _ ∨ _ ∧ _ ∧
        (s.updatePaths local_ candidates fresh).2.lease = _
      unfold updatePaths
      split
      · exact .inl rfl
      · rename_i hlocal
        split
        · exact .inl rfl
        · rename_i hlength
          split
          · exact .inl rfl
          · rename_i hvalid
            have hupdate := update_lease s candidates fresh
            generalize s.update candidates fresh = updated at hupdate ⊢
            obtain ⟨result, next⟩ := updated
            have htakes : Takes s (.updatePaths local_ candidates fresh) :=
              ⟨hlocal, by omega, hvalid⟩
            cases result with
            | error failure => exact hupdate.imp_right fun h => ⟨htakes, h.2⟩
            | ok _ => exact hupdate.imp_right fun h => ⟨htakes, h.2⟩
  | resume fresh => exact update_lease s s.candidates fresh
  | touch localKey remote now fresh => exact .inl touch_lease
  | retain authorized => exact .inl rfl
  | poll chance now mtu address => exact .inl (pollWithMtu_lease s chance now mtu address)
  | receive r => exact .inl (receiveOn_lease scaled s r)

theorem sendChecks_generation (chance : Track.Chance) (generation : Nat) (remote : Key) (now : Nat)
    (targets : List Track.Target) (available : Nat) (track : Track) :
    ∀ send ∈ (track.sendChecks chance generation remote now targets available).1,
      send.coordination.generation = generation := by
  induction targets generalizing available track with
  | nil =>
      intro send hmem
      cases hmem
  | cons target rest ih =>
      unfold Track.sendChecks
      split
      · intro send hmem
        cases hmem
      · split
        · intro send hmem
          cases hmem
        · intro send hmem
          rcases List.mem_cons.mp hmem with rfl | hmem
          · rfl
          · exact ih _ _ send hmem

theorem poll_generation (chance : Track.Chance) (generation : Nat) (candidates : List SocketAddr)
    (remote : Key) (now mtu : Nat) (address : Key → Option IpAddr) (available : Nat) (track : Track) :
    ∀ send ∈ (track.poll chance generation candidates remote now mtu address available).1,
      send.coordination.generation = generation := by
  have hadvertise : ∀ send ∈ (track.advertise generation candidates remote now).1,
      send.coordination.generation = generation := by
    unfold Track.advertise
    split
    · intro send hmem
      rw [List.mem_singleton.mp hmem]
    · intro send hmem
      cases hmem
  intro send hmem
  unfold Track.poll at hmem
  dsimp only at hmem
  split at hmem
  · exact hadvertise send hmem
  · rcases List.mem_append.mp hmem with hmem | hmem
    · exact hadvertise send hmem
    · exact sendChecks_generation _ _ _ _ _ _ _ send hmem

/-- Whatever a poll sends carries the generation in use. -/
theorem pollWithMtu_generation (s : Connectivity) (chance : Track.Chance) (now mtu : Nat)
    (address : Key → Option IpAddr) :
    ∀ send ∈ (s.pollWithMtu chance now mtu address).1,
      send.coordination.generation = s.generation := by
  have htracks : ∀ (keys : List Key) (available : Nat) (s : Connectivity),
      ∀ send ∈ (pollTracks chance now mtu address keys available s).1,
        send.coordination.generation = s.generation := by
    intro keys
    induction keys with
    | nil =>
        intro available s send hmem
        cases hmem
    | cons key rest ih =>
        intro available s send hmem
        unfold pollTracks at hmem
        split at hmem
        · exact ih available s send hmem
        · rcases List.mem_append.mp hmem with hmem | hmem
          · exact poll_generation _ _ _ _ _ _ _ _ _ send hmem
          · have hrest := ih _ _ send hmem
            exact hrest
  exact htracks _ _ _

/-- Replies are acknowledgements. -/
theorem receiveOn_reply {r : Received} {sends : List Send} {send : Send}
    (h : (s.receiveOn scaled r).1 = .ok sends) (hmem : send ∈ sends) (endpoints : List SocketAddr) :
    send.coordination.message ≠ .candidates endpoints := by
  obtain ⟨messages, ⟨failure, hfailed | hfailed⟩ | ⟨track, -, hdelivered⟩⟩ :=
    receiveOn_cases scaled s r
  · rw [hfailed] at h
    cases h
  · rw [hfailed] at h
    cases h
  · rw [hdelivered] at h
    unfold deliver at h
    dsimp only at h
    split at h
    · cases h
    · split at h
      · cases h
      · rename_i reply new hreply
        cases h
        obtain ⟨message, hmessage, rfl⟩ := List.mem_map.mp hmem
        rw [Option.mem_toList] at hmessage
        cases hmessage
        unfold Track.receive at hreply
        have hkinds : message = .candidatesAck ∨ message = .probeAck := by
          split at hreply
          all_goals grind
        rintro rfl
        exact hkinds.elim (by rintro ⟨⟩) (by rintro ⟨⟩)

/-- Candidates are advertised under the generation in use. -/
theorem sends_candidates {send : Send} (hmem : send ∈ s.sends scaled op)
    {endpoints : List SocketAddr} (h : send.coordination.message = .candidates endpoints) :
    send.coordination.generation = s.generation := by
  cases op with
  | poll chance now mtu address => exact pollWithMtu_generation s chance now mtu address send hmem
  | receive r =>
      unfold sends at hmem
      dsimp only at hmem
      split at hmem
      · rename_i sends hok
        exact absurd h (receiveOn_reply hok hmem endpoints)
      · cases hmem
  | update _ _ | updatePaths _ _ _ | resume _ | touch _ _ _ _ | retain _ => cases hmem

end Connectivity

/-! ## Reserved ranges

The ceiling of a range is on disk before the range is used. A process that opens the directory later
starts at or above it.
-/

namespace Checkpoint

variable {enc : Encoding} {checkpoint next : Checkpoint} {stored : Bool}

theorem commit_ceiling {kind : SnapshotKind} {revision now : Nat} {bytes : Bytes}
    {revoked : List CredentialSerial}
    (h : checkpoint.commit enc kind revision bytes now revoked stored = .ok next) :
    next.state.generationCeiling = checkpoint.state.generationCeiling := by
  unfold commit at h
  obtain ⟨-, -, h⟩ := bind_eq_ok.mp h
  obtain ⟨state, hstate, h⟩ := bind_eq_ok.mp h
  obtain ⟨-, -, h⟩ := bind_eq_ok.mp h
  cases h
  unfold revoke at hstate
  split at hstate
  · cases hstate
    rfl
  · cases hstate
    rfl
  · split at hstate
    · cases hstate
      rfl
    · cases hstate

theorem advanceExpiryFloor_ceiling {now : Nat}
    (h : checkpoint.advanceExpiryFloor enc now stored = .ok next) :
    next.state.generationCeiling = checkpoint.state.generationCeiling := by
  unfold advanceExpiryFloor at h
  split at h
  · cases h
    rfl
  · obtain ⟨-, -, h⟩ := bind_eq_ok.mp h
    cases h
    rfl

theorem commitAuthorization_ceiling {floor : AuthorizationFloor}
    (h : checkpoint.commitAuthorization enc floor stored = .ok next) :
    next.state.generationCeiling = checkpoint.state.generationCeiling := by
  unfold commitAuthorization at h
  obtain ⟨-, -, h⟩ := bind_eq_ok.mp h
  obtain ⟨-, -, h⟩ := bind_eq_ok.mp h
  cases h
  rfl

end Checkpoint

/-- The ceiling on disk. -/
def CheckpointFiles.ceiling (files : CheckpointFiles) : Nat :=
  match files.file with
  | .present state => state.generationCeiling
  | _ => 0

/-- A new range starts at or above the ceiling on disk and raises it. -/
theorem Checkpoint.reserve_spec {enc : Encoding} {files : CheckpointFiles} {root : Key}
    {mesh : MeshId} {peer : PeerId} {now generation : Nat} {state : State} {start : Nat}
    (h : Checkpoint.reserve enc files root mesh peer now generation = .ok (state, start)) :
    files.ceiling ≤ start ∧ state.generationCeiling = start + GENERATION_LEASE := by
  unfold Checkpoint.reserve at h
  obtain ⟨loaded, hloaded, h⟩ := bind_eq_ok.mp h
  obtain ⟨-, -, h⟩ := bind_eq_ok.mp h
  obtain ⟨-, -, h⟩ := bind_eq_ok.mp h
  obtain ⟨-, -, h⟩ := bind_eq_ok.mp h
  cases h
  refine ⟨?_, rfl⟩
  have hceiling : files.ceiling ≤ loaded.generationCeiling := by
    unfold CheckpointFiles.ceiling
    cases hfile : files.file with
    | missing | corrupt => exact Nat.zero_le _
    | present state =>
        unfold Checkpoint.load at hloaded
        rw [hfile] at hloaded
        cases hmarker : files.marker <;> rw [hmarker] at hloaded <;> cases hloaded <;> rfl
  exact hceiling.trans (Nat.le_max_right _ _)

namespace Host

variable {enc : Encoding} {scaled : Nat → Nat} {s s' start : Host} {op : Op} {owner : Owner}

/-- The owner counts within the range on disk. -/
structure Leased (s : Host) (owner : Owner) : Prop where
  disk : s.files.ceiling = owner.ceiling
  checkpoint : owner.checkpoint.state.generationCeiling = owner.ceiling
  paths : owner.connectivity.generationCeiling = owner.ceiling
  management : owner.managementCeiling = owner.ceiling
  generation : owner.start ≤ owner.connectivity.generation
  sequence : owner.start ≤ owner.managementSequence

/-- What one step does to the ranges: the owner stays with its range or goes, or a new owner takes a
range above the ceiling on disk. -/
structure Progress (s s' : Host) : Prop where
  disk : s.files.ceiling ≤ s'.files.ceiling
  lifetimes : s.lifetimes ≤ s'.lifetimes
  owner : ∀ owner', s'.owner = some owner' →
    (s'.lifetimes = s.lifetimes ∧
      ∃ owner, s.owner = some owner ∧ owner'.start = owner.start ∧ owner'.ceiling = owner.ceiling) ∨
    (s.lifetimes < s'.lifetimes ∧ s.files.ceiling ≤ owner'.start)

theorem Progress.of_range {owner' : Owner} (hdisk : s'.files.ceiling = s.files.ceiling)
    (hlifetimes : s'.lifetimes = s.lifetimes) (howner : s.owner = some owner)
    (howner' : s'.owner = some owner') (hstart : owner'.start = owner.start)
    (hceiling : owner'.ceiling = owner.ceiling) : Progress s s' := by
  refine ⟨hdisk.ge, hlifetimes.ge, fun found hfound => .inl ⟨hlifetimes, owner, howner, ?_⟩⟩
  cases howner'.symm.trans hfound
  exact ⟨hstart, hceiling⟩

theorem enableCheckpoint_progress (howner : s.owner = none) (root : Key) (mesh : MeshId)
    (peer : PeerId) (now : Nat) (connectivity : Connectivity) (outcome : Checkpoint.OpenOutcome) :
    Progress s (s.enableCheckpoint enc root mesh peer now connectivity outcome) ∧
      ∀ owner, (s.enableCheckpoint enc root mesh peer now connectivity outcome).owner = some owner →
        Leased (s.enableCheckpoint enc root mesh peer now connectivity outcome) owner := by
  unfold enableCheckpoint Checkpoint.openFiles
  cases hreserve : Checkpoint.reserve enc s.files root mesh peer now connectivity.generation with
  | error failure =>
      refine ⟨⟨Nat.le_refl _, Nat.le_refl _, fun owner h => ?_⟩, fun owner h => ?_⟩
      · cases howner.symm.trans h
      · cases howner.symm.trans h
  | ok reserved =>
      obtain ⟨state, start⟩ := reserved
      obtain ⟨hstart, hceiling⟩ := Checkpoint.reserve_spec hreserve
      have hraised : s.files.ceiling ≤ state.generationCeiling := by omega
      cases outcome with
      | notWritten =>
          refine ⟨⟨Nat.le_refl _, Nat.le_refl _, fun owner h => ?_⟩, fun owner h => ?_⟩
          · cases howner.symm.trans h
          · cases howner.symm.trans h
      | crashed =>
          refine ⟨⟨hraised, Nat.le_refl _, fun owner h => ?_⟩, fun owner h => ?_⟩
          · cases howner.symm.trans h
          · cases howner.symm.trans h
      | returned =>
          refine ⟨⟨hraised, Nat.le_succ _, fun owner h => .inr ⟨Nat.lt_succ_self _, ?_⟩⟩,
            fun owner h => ?_⟩
          · cases h
            exact hstart
          · cases h
            exact ⟨rfl, rfl, rfl, rfl, Nat.le_refl _, Nat.le_refl _⟩

theorem persist_progress (howner : s.owner = some owner) (hleased : Leased s owner)
    {written : Except PeerError Checkpoint}
    (h : ∀ checkpoint, written = .ok checkpoint →
      checkpoint.state.generationCeiling = owner.checkpoint.state.generationCeiling) :
    Progress s (s.persist owner written) ∧
      ∀ owner', (s.persist owner written).owner = some owner' →
        Leased (s.persist owner written) owner' := by
  cases written with
  | error failure =>
      refine ⟨.of_range rfl rfl howner howner rfl rfl, fun owner' h' => ?_⟩
      cases howner.symm.trans h'
      exact hleased
  | ok checkpoint =>
      have hceiling : checkpoint.state.generationCeiling = owner.ceiling :=
        (h checkpoint rfl).trans hleased.checkpoint
      refine ⟨.of_range (hceiling.trans hleased.disk.symm) rfl howner rfl rfl rfl, fun owner' h' => ?_⟩
      cases h'
      exact ⟨hceiling, hceiling, hleased.paths, hleased.management, hleased.generation,
        hleased.sequence⟩

/-- Every step makes progress and leaves its owner within the range on disk. -/
theorem step_progress (hleased : ∀ owner, s.owner = some owner → Leased s owner) (op : Op) :
    Progress s (step enc scaled s op) ∧
      ∀ owner, (step enc scaled s op).owner = some owner → Leased (step enc scaled s op) owner := by
  unfold step
  cases howner : s.owner with
  | none =>
      cases op with
      | enable root mesh peer now connectivity outcome =>
          exact enableCheckpoint_progress howner root mesh peer now connectivity outcome
      | close | connect _ | nextManagementSequence | commit _ _ _ _ _ _ | advanceExpiryFloor _ _
      | commitAuthorization _ _ =>
          dsimp only
          refine ⟨⟨Nat.le_refl _, Nat.le_refl _, fun owner h => ?_⟩, hleased⟩
          cases howner.symm.trans h
  | some owner =>
      have hheld := hleased owner howner
      cases op with
      | enable => exact ⟨.of_range rfl rfl howner howner rfl rfl, hleased⟩
      | close => exact ⟨⟨Nat.le_refl _, Nat.le_refl _, nofun⟩, nofun⟩
      | connect op =>
          refine ⟨.of_range rfl rfl howner rfl rfl rfl, fun owner' h => ?_⟩
          cases h
          have hlease := owner.connectivity.step_lease scaled op
          simp only [Connectivity.lease, Prod.mk.injEq] at hlease
          have hpaths := hheld.paths
          have hgeneration := hheld.generation
          refine ⟨hheld.disk, hheld.checkpoint, ?_, hheld.management, ?_, hheld.sequence⟩
          · show (owner.connectivity.step scaled op).generationCeiling = owner.ceiling
            omega
          · show owner.start ≤ (owner.connectivity.step scaled op).generation
            omega
      | nextManagementSequence =>
          have hsequence := hheld.sequence
          dsimp only
          unfold Owner.nextManagementSequence
          dsimp only
          split
          · refine ⟨.of_range rfl rfl howner rfl rfl rfl, fun owner' h => ?_⟩
            cases h
            exact ⟨hheld.disk, hheld.checkpoint, hheld.paths, hheld.management, hheld.generation,
              Nat.le_succ_of_le hsequence⟩
          · refine ⟨.of_range rfl rfl howner rfl rfl rfl, fun owner' h => ?_⟩
            cases h
            exact ⟨hheld.disk, hheld.checkpoint, hheld.paths, hheld.management, hheld.generation,
              hsequence⟩
      | commit kind revision bytes now revoked stored =>
          exact persist_progress howner hheld fun _ => Checkpoint.commit_ceiling
      | advanceExpiryFloor now stored =>
          exact persist_progress howner hheld fun _ => Checkpoint.advanceExpiryFloor_ceiling
      | commitAuthorization floor stored =>
          exact persist_progress howner hheld fun _ => Checkpoint.commitAuthorization_ceiling

/-- A new owner starts below its ceiling; otherwise only path operations move the generation. -/
theorem step_connectivity {owner' : Owner} (h : (step enc scaled s op).owner = some owner') :
    owner'.connectivity.generation < owner'.connectivity.generationCeiling ∨
      ∃ owner, s.owner = some owner ∧ (owner'.connectivity = owner.connectivity ∨
        ∃ op', op = .connect op' ∧ owner'.connectivity = owner.connectivity.step scaled op') := by
  unfold step at h
  cases howner : s.owner with
  | none =>
      rw [howner] at h
      cases op with
      | enable root mesh peer now connectivity outcome =>
          dsimp only at h
          unfold enableCheckpoint Checkpoint.openFiles at h
          -- a new owner has reserved a range that is not empty
          cases hreserve : Checkpoint.reserve enc s.files root mesh peer now
              connectivity.generation with
          | error failure =>
              rw [hreserve] at h
              cases howner.symm.trans h
          | ok reserved =>
              rw [hreserve] at h
              cases outcome with
              | notWritten | crashed => cases howner.symm.trans h
              | returned =>
                  cases h
                  refine .inl ?_
                  show reserved.2 < reserved.1.generationCeiling
                  rw [(Checkpoint.reserve_spec hreserve).2]
                  exact Nat.lt_add_of_pos_right (by decide)
      | close | connect _ | nextManagementSequence | commit _ _ _ _ _ _ | advanceExpiryFloor _ _
      | commitAuthorization _ _ => cases howner.symm.trans h
  | some owner =>
      rw [howner] at h
      refine .inr ⟨owner, rfl, ?_⟩
      -- storing a floor does not touch the paths
      have hpersist : ∀ written : Except PeerError Checkpoint,
          (s.persist owner written).owner = some owner' →
            owner'.connectivity = owner.connectivity := by
        intro written hwritten
        cases written with
        | error failure =>
            cases howner.symm.trans hwritten
            rfl
        | ok checkpoint =>
            cases hwritten
            rfl
      cases op with
      | enable =>
          cases howner.symm.trans h
          exact .inl rfl
      | close => cases h
      | connect op =>
          cases h
          exact .inr ⟨op, rfl, rfl⟩
      | nextManagementSequence =>
          cases h
          unfold Owner.nextManagementSequence
          dsimp only
          split <;> exact .inl rfl
      | commit | advanceExpiryFloor | commitAuthorization => exact .inl (hpersist _ h)

/-! ## Every run

Ranges of successive owners follow each other and meet in one value, the ceiling. So a generation can be
used twice only by an owner that has taken its last one.
-/

section Runs

variable (enc : Encoding) (scaled : Nat → Nat) (start : Host)

/-- The values that operations emit in a later lifetime are larger than those of an earlier one. -/
def Increasing (emits : Host → Op → List Nat) (ops : List Op) : Prop :=
  ∀ before op between op' rest, ops = before ++ op :: between ++ op' :: rest →
    let s := exec (step enc scaled) start before
    let s' := exec (step enc scaled) start (before ++ op :: between)
    s.lifetimes < s'.lifetimes → ∀ v ∈ emits s op, ∀ v' ∈ emits s' op', v < v'

/-- The operation takes the last generation of the owner's range, its ceiling. -/
def TakesLast (s : Host) : Op → Prop
  | .connect op => ∃ owner, s.owner = some owner ∧ owner.connectivity.Takes op ∧
      owner.connectivity.generation + 1 = owner.connectivity.generationCeiling
  | _ => False

end Runs

variable {ops : List Op}

theorem leased_of_run (hstart : start.owner = none) (ops : List Op) :
    ∀ owner, (exec (step enc scaled) start ops).owner = some owner →
      Leased (exec (step enc scaled) start ops) owner := by
  refine exec_invariant (I := fun s => ∀ owner, s.owner = some owner → Leased s owner) ?_ ?_ ops
  · intro owner howner
    cases hstart.symm.trans howner
  · intro s op hleased
    exact (step_progress hleased op).2

/-- The range of a later owner starts at or above the ceiling of an earlier one. -/
theorem ranges_follow (hstart : start.owner = none) (before more : List Op)
    (howner : (exec (step enc scaled) start before).owner = some owner) :
    owner.ceiling ≤ (exec (step enc scaled) start (before ++ more)).files.ceiling ∧
      (exec (step enc scaled) start before).lifetimes
        ≤ (exec (step enc scaled) start (before ++ more)).lifetimes ∧
      ((exec (step enc scaled) start before).lifetimes
          < (exec (step enc scaled) start (before ++ more)).lifetimes →
        ∀ owner', (exec (step enc scaled) start (before ++ more)).owner = some owner' →
          owner.ceiling ≤ owner'.start) := by
  induction more using List.reverseRecOn with
  | nil =>
      rw [List.append_nil]
      exact ⟨(leased_of_run hstart before owner howner).disk.ge, Nat.le_refl _,
        fun h => absurd h (Nat.lt_irrefl _)⟩
  | append_singleton more op ih =>
      obtain ⟨hdisk, hlifetimes, hstarts⟩ := ih
      have hleased := @leased_of_run enc scaled start hstart (before ++ more)
      have hprogress := (@step_progress enc scaled _ hleased op).1
      rw [← List.append_assoc, exec_concat]
      refine ⟨hdisk.trans hprogress.disk, hlifetimes.trans hprogress.lifetimes, ?_⟩
      intro hlater owner' howner'
      rcases hprogress.owner owner' howner' with ⟨hsame, held, hheld, heq, -⟩ | ⟨-, hstart'⟩
      · rw [heq]
        rw [hsame] at hlater
        exact hstarts hlater held hheld
      · exact hdisk.trans hstart'

/-- Values taken from the owners' ranges increase from one lifetime to the next. -/
theorem increasing_of_ranges (hstart : start.owner = none) {emits : Host → Op → List Nat}
    (h : Along (fun passed op => ∀ v ∈ emits (exec (step enc scaled) start passed) op,
      ∃ owner, (exec (step enc scaled) start passed).owner = some owner ∧
        owner.start ≤ v ∧ v < owner.ceiling) ops) :
    Increasing enc scaled start emits ops := by
  intro before op between op' rest hops s s' hlater v hv v' hv'
  have hops' : ops = before ++ op :: (between ++ op' :: rest) := by
    rw [hops, List.append_assoc, List.cons_append]
  obtain ⟨owner, howner, -, hbelow⟩ := h before op _ hops' v hv
  obtain ⟨owner', howner', habove, -⟩ := h (before ++ op :: between) op' rest hops v' hv'
  have hstarts := (ranges_follow hstart before (op :: between) howner).2.2 hlater owner' howner'
  omega

theorem sequences_in_range (hleased : ∀ owner, s.owner = some owner → Leased s owner) {v : Nat}
    (hv : v ∈ sequences s op) :
    ∃ owner, s.owner = some owner ∧ owner.start ≤ v ∧ v < owner.ceiling := by
  unfold sequences at hv
  split at hv
  · rename_i owner howner
    have hheld := hleased owner howner
    have hceiling := hheld.management
    have hsequence := hheld.sequence
    unfold Owner.nextManagementSequence at hv
    dsimp only at hv
    split at hv
    · rename_i hnext
      simp only [Bool.and_eq_true, decide_eq_true_eq] at hnext
      have hvalue : v = owner.managementSequence + 1 := List.mem_singleton.mp hv
      exact ⟨owner, howner, by omega, by omega⟩
    · cases hv
  · cases hv

theorem advertised_eq {v : Nat} (hv : v ∈ advertised scaled s op) :
    ∃ owner, s.owner = some owner ∧ v = owner.connectivity.generation := by
  unfold advertised at hv
  split at hv
  · rename_i owner op' howner
    obtain ⟨send, hmem, hsend⟩ := List.mem_filterMap.mp hv
    split at hsend
    · rename_i endpoints hmessage
      cases hsend
      exact ⟨owner, howner, Connectivity.sends_candidates hmem hmessage⟩
    · cases hsend
  · cases hv

/-- While no operation takes the last generation, one is always left. -/
theorem spare_of_run (hstart : start.owner = none)
    (h : Along (fun passed op => ¬ TakesLast (exec (step enc scaled) start passed) op) ops) :
    ∀ owner, (exec (step enc scaled) start ops).owner = some owner →
      owner.connectivity.generation < owner.connectivity.generationCeiling := by
  induction ops using List.reverseRecOn with
  | nil =>
      intro owner howner
      cases hstart.symm.trans howner
  | append_singleton ops op ih =>
      obtain ⟨hops, hop⟩ := along_concat.mp h
      intro owner' howner'
      rw [exec_concat] at howner'
      rcases step_connectivity howner' with hspare | ⟨owner, howner, hsame | ⟨op', rfl, hstep⟩⟩
      · exact hspare
      · rw [hsame]
        exact ih hops owner howner
      · have hspare := ih hops owner howner
        rw [hstep]
        have hlease := owner.connectivity.step_lease scaled op'
        simp only [Connectivity.lease, Prod.mk.injEq] at hlease
        rcases hlease with hsame | ⟨htakes, -, hnext⟩
        · omega
        · have hlast : owner.connectivity.generation + 1 ≠ owner.connectivity.generationCeiling :=
            fun hlast => hop ⟨owner, howner, htakes, hlast⟩
          omega

/-- Management numbers never repeat across lifetimes. Path generations do not either, as long as no
owner takes the last generation of its range. -/
theorem generations_are_not_reused (enc : Encoding) (scaled : Nat → Nat) (files : CheckpointFiles)
    (ops : List Op) :
    Increasing enc scaled { files } sequences ops ∧
      (Along (fun passed op => ¬ TakesLast (exec (step enc scaled) { files } passed) op) ops →
        Increasing enc scaled { files } (advertised scaled) ops) := by
  refine ⟨increasing_of_ranges rfl ?_, fun h => increasing_of_ranges rfl ?_⟩
  · intro before op rest _ v hv
    exact sequences_in_range (leased_of_run rfl before) hv
  · intro before op rest hops v hv
    obtain ⟨owner, howner, rfl⟩ := advertised_eq hv
    have hleased := leased_of_run rfl before owner howner
    refine ⟨owner, howner, hleased.generation, ?_⟩
    rw [← hleased.paths]
    exact spare_of_run rfl (Along.left (hops ▸ h)) owner howner

/-! ## A whole range

An owner that changes its candidates until its range is used up, and the one after it, which starts with
the same generation.
-/

section Exhausted

def plain : Encoding := { sha256 := fun _ => 0, jsonLength := fun _ => 100 }

def someId : Types.Id := ⟨0x00000000000040008000000000000001#128, Types.random_one⟩

/-- A process opens the directory. -/
def opening : Op := .enable 0 someId someId 10 (.new 1 0) .returned

def updating : Op := .connect (.update [] fun _ => 0)

/-- Traffic to key 1, and the poll that advertises candidates to it. -/
def touching : Op := .connect (.touch 0 1 0 0)

def polling : Op :=
  .connect (.poll { fresh := fun _ _ => 5, permit := fun _ _ => true } 0 1400 fun _ => none)

/-- The owner after `n` updates. -/
def spent (n : Nat) : Host :=
  let state : State :=
    { version := 2, root := 0, mesh := someId, peer := someId, stamps := ∅, subjects := ∅
      authorities := ∅, timeFloor := 10, generationCeiling := 1 + GENERATION_LEASE
      authorization := {} }
  { files := { marker := .committed, file := .present state }
    owner := some { checkpoint := { state }, start := 1, ceiling := 1 + GENERATION_LEASE
                    connectivity := (Connectivity.new 1 0).reserveGeneration (1 + n)
                      (1 + GENERATION_LEASE)
                    managementSequence := 1, managementCeiling := 1 + GENERATION_LEASE }
    lifetimes := 1 }

theorem step_spent {n : Nat} (h : n < GENERATION_LEASE) :
    step plain (· * 4 / 5) (spent n) updating = spent (n + 1) := by
  have hwidth : ¬ (1 + n + 1 ≥ 2 ^ 64) := by
    unfold GENERATION_LEASE at h
    omega
  have hupdate : (((Connectivity.new 1 0).reserveGeneration (1 + n) (1 + GENERATION_LEASE)).update
      [] (fun _ => 0)).2 = (Connectivity.new 1 0).reserveGeneration (1 + (n + 1))
        (1 + GENERATION_LEASE) := by
    rw [Connectivity.update_eq rfl (Nat.add_lt_add_left h 1) hwidth]
    show Connectivity.mk _ _ _ _ ((∅ : ExtTreeMap Key Track).map _) _ _ = _
    rw [ExtTreeMap.map_eq_empty_iff.mpr rfl]
    rfl
  unfold step spent updating
  dsimp only [Connectivity.step]
  rw [hupdate]

theorem exec_spent {n : Nat} (h : n ≤ GENERATION_LEASE) :
    exec (step plain (· * 4 / 5)) { files := {} } (opening :: List.replicate n updating) = spent n := by
  induction n with
  | zero => rfl
  | succ n ih =>
      rw [List.replicate_succ', ← List.cons_append, exec_concat, ih (by omega), step_spent (by omega)]

/-- One owner takes its whole range and the next one repeats the last generation. -/
theorem last_generation_is_reused :
    ¬ Increasing plain (· * 4 / 5) { files := {} } (advertised (· * 4 / 5))
      (opening :: List.replicate GENERATION_LEASE updating ++
        [touching, polling, .close, opening, touching, polling]) := by
  intro h
  have hfirst : exec (step plain (· * 4 / 5)) { files := {} }
      (opening :: List.replicate GENERATION_LEASE updating ++ [touching])
        = step plain (· * 4 / 5) (spent GENERATION_LEASE) touching := by
    rw [exec_concat, exec_spent (Nat.le_refl _)]
  have hsecond : exec (step plain (· * 4 / 5)) { files := {} }
      (opening :: List.replicate GENERATION_LEASE updating ++ [touching] ++
        polling :: [.close, opening, touching])
        = exec (step plain (· * 4 / 5)) (spent GENERATION_LEASE)
          [touching, polling, .close, opening, touching] := by
    rw [List.append_assoc, exec_append, exec_spent (Nat.le_refl _)]
    rfl
  have hless := h (opening :: List.replicate GENERATION_LEASE updating ++ [touching]) polling
    [.close, opening, touching] polling [] (by simp)
  dsimp only at hless
  rw [hfirst, hsecond] at hless
  have hvalue := hless (by decide +kernel) (GENERATION_LEASE + 1) (by decide +kernel)
    (GENERATION_LEASE + 1) (by decide +kernel)
  exact Nat.lt_irrefl _ hvalue

/-- Two owners that leave their last generation. -/
theorem spared_generations_are_not_reused :
    Increasing plain (· * 4 / 5) { files := {} } (advertised (· * 4 / 5))
      [opening, updating, touching, polling, .close, opening, touching, polling] := by
  refine (generations_are_not_reused plain (· * 4 / 5) {} _).2 ?_
  have hspare : ¬ TakesLast (exec (step plain (· * 4 / 5)) { files := {} } [opening]) updating := by
    rintro ⟨owner, howner, -, hlast⟩
    cases howner
    exact absurd hlast (by decide)
  have hkinds : ∀ (s : Host) (op : Op), op = opening ∨ op = touching ∨ op = polling ∨ op = .close →
      ¬ TakesLast s op := by
    rintro s op (rfl | rfl | rfl | rfl) h
    · exact h
    · exact h.choose_spec.2.1
    · exact h.choose_spec.2.1
    · exact h
  show Along _ (((((((([] ++ [opening]) ++ [updating]) ++ [touching]) ++ [polling]) ++ [.close])
    ++ [opening]) ++ [touching]) ++ [polling])
  simp only [along_concat]
  refine ⟨⟨⟨⟨⟨⟨⟨⟨along_nil, ?_⟩, hspare⟩, ?_⟩, ?_⟩, ?_⟩, ?_⟩, ?_⟩, ?_⟩
  all_goals exact hkinds _ _ (by simp)

end Exhausted

end Host

end Peerward.PeerCore
