import Peerward.Relay.Admission
import Peerward.Relay.PresenceCache

/-!
# The bootstrap of a backbone link

The side that accepts a backbone link writes the presence it owns and a `link_ready` greeting. The
side that connects collects what comes before the greeting and handles it once the link is used. The
writer chooses the kind of record by its topology; the reader knows one kind only.
-/

namespace Peerward.Relay

open Std Peerward.Lib Peerward.Wire
open Peerward.Types (Id MeshId PeerId RelayId)

/-- `b"link_ready"`. -/
def LINK_READY : Bytes := [108, 105, 110, 107, 95, 114, 101, 97, 100, 121]

/-! ## The accepting side

It writes a greeting and one record for each presence of its own, in a form that depends on the mode of the
mesh.
-/

/-- What the accepting side writes its bootstrap from. -/
structure Accepting where
  meshId : MeshId
  relayId : RelayId
  queueCapacity : Nat
  cache : PresenceCache
  /-- The revision of its sparse topology, in sparse mode. -/
  sparse : Option Nat

/-- `write_noise_record`: a record that does not fit is not written. -/
def writeRecord (record : Record) : Except RelayError Record := do
  let _ ← RelayError.ofWire record.encodePlaintext
  return record

namespace Accepting

def owned (side : Accepting) : List PresenceAnnouncement :=
  side.cache.announcementsOwnedBy side.relayId

/-- The payload for one of its presences. -/
def payload (side : Accepting) (update : PresenceAnnouncement) : BackbonePayload :=
  match side.sparse with
  | some topologyRevision => .routedPresence update
    { origin := side.relayId, destination := none, topologyRevision, hopLimit := 4
      visited := [side.relayId] }
  | none => .presence update

def linkReady (meshId : MeshId) : Record :=
  .control { message := some (.welcome meshId.asBytes LINK_READY) }

def writePresence (side : Accepting) (update : PresenceAnnouncement) : Except RelayError Record := do
  let control ← backboneControlEnvelope side.meshId (side.payload update)
  writeRecord (.control control)

/-- The records that `drive_backbone` writes before the link is used. -/
def writeBootstrap (side : Accepting) : Except RelayError (List Record) := do
  rejectIf (side.owned.length > side.queueCapacity * 16) .queueFull
  let records ← side.owned.mapM side.writePresence
  return records ++ [← writeRecord (linkReady side.meshId)]

end Accepting

/-! ## The connecting side

It reads the greeting and then as many records as the greeting announces, each of which has to be a
presence.
-/

/-- What the connecting side reads a bootstrap into. -/
structure Connecting where
  meshId : MeshId
  queueCapacity : Nat
  cache : PresenceCache
  /-- The fences of the router. -/
  knownFences : ExtTreeMap PeerId Int64

namespace Connecting

/-- The loop of `connect_backbone`; without a greeting it runs into its deadline. -/
def collect (side : Connecting) : List Record → List Record → Except RelayError (List Record)
  | _, [] => .error .handshakeLimited
  | bootstrap, record :: rest =>
    match record with
    | .control { message := some (.welcome meshId body), .. } =>
      if meshId = side.meshId.asBytes ∧ body = LINK_READY then .ok bootstrap
      else .error (.wire .kindMismatch)
    | .control { message := some (.presence ..), .. } =>
      if bootstrap.length ≥ side.queueCapacity * 16 then .error .queueFull
      else side.collect (bootstrap ++ [record]) rest
    | _ => .error (.wire .kindMismatch)

/-- `OpaqueRouter::observe_fence`. -/
def observeFence (side : Connecting) (peer : PeerId) (generation : Int64) :
    Except RelayError Connecting :=
  if side.knownFences[peer]?.any (generation < ·) then .error .staleFence
  else .ok { side with knownFences := side.knownFences.insert peer generation }

/-- The handling of an announcement by the Relay at the other end. -/
def observe (side : Connecting) (remote : RelayId) (update : PresenceAnnouncement) :
    Except RelayError Connecting := do
  let observed ← side.cache.observe remote update
  let side := { side with cache := observed.2 }
  if !update.released && observed.1 && update.entry.role = .primary then
    side.observeFence update.entry.peerId update.entry.generation
  else return side

/-- The `Presence` branch of `handle_backbone_record`; the loop above lets no other record through. -/
def handle (side : Connecting) (remote : RelayId) : Record → Except RelayError Connecting
  | .control { message := some (.presence meshId body), .. } => do
    rejectIf (meshId ≠ side.meshId.asBytes) .noRoute
    side.observe remote (← decodePresence body)
  | _ => .error (.wire .kindMismatch)

end Connecting

/-! ## The exchange -/

theorem writeRecord_ok {message : ControlMessage} {tag : Nat} {meshId : MeshId} {body : Bytes}
    (hmessage : message.encode = messageField tag (meshBlob meshId.asBytes body))
    (hkey : (fieldKey tag 2).length = 1) (hbody : body ≠ []) (h : body.length ≤ 1000) :
    writeRecord (.control { message := some message })
      = .ok (.control { message := some message }) := by
  have hlength := @length_meshMessage tag meshId body hkey hbody (by omega)
  have hfits : (Record.control { message := some message }).encodePlaintext.isOk = true := by
    rw [encodePlaintext_isOk]
    show (message.encode ++ []).length ≤ _
    rw [List.append_nil, hmessage]
    omega
  unfold writeRecord
  cases hencode : (Record.control { message := some message }).encodePlaintext with
  | error failure =>
      rw [hencode] at hfits
      cases hfits
  | ok bytes => rfl

theorem writeRecord_linkReady (meshId : MeshId) :
    writeRecord (Accepting.linkReady meshId) = .ok (Accepting.linkReady meshId) :=
  @writeRecord_ok (.welcome meshId.asBytes LINK_READY) 2 meshId LINK_READY rfl rfl nofun (by decide)

@[simp] theorem length_encodePresence (update : PresenceAnnouncement) :
    (encodePresence update).length = 67 := by
  simp [encodePresence]

/-- The record of one presence in a full mesh. -/
def presenceRecord (meshId : MeshId) (update : PresenceAnnouncement) : Record :=
  .control { message := some (.presence meshId.asBytes (encodePresence update)) }

theorem writeRecord_presence (meshId : MeshId) (update : PresenceAnnouncement) :
    writeRecord (presenceRecord meshId update) = .ok (presenceRecord meshId update) := by
  refine @writeRecord_ok (.presence meshId.asBytes (encodePresence update)) 8 meshId _ rfl rfl ?_ ?_
  · exact List.ne_nil_of_length_eq_add_one (length_encodePresence update)
  · rw [length_encodePresence]
    decide

theorem writePresence_fullMesh {side : Accepting} (hmode : side.sparse = none)
    (update : PresenceAnnouncement) :
    side.writePresence update = .ok (presenceRecord side.meshId update) := by
  have hpayload : side.payload update = .presence update := by
    unfold Accepting.payload
    rw [hmode]
  unfold Accepting.writePresence
  rw [hpayload]
  exact bind_eq_ok.mpr ⟨_, rfl, writeRecord_presence side.meshId update⟩

theorem writeBootstrap_fullMesh {side : Accepting} (hmode : side.sparse = none)
    (hbound : side.owned.length ≤ side.queueCapacity * 16) :
    side.writeBootstrap = .ok (side.owned.map (presenceRecord side.meshId)
      ++ [Accepting.linkReady side.meshId]) := by
  have hroom : rejectIf (decide (side.owned.length > side.queueCapacity * 16)) RelayError.queueFull
      = .ok () := by
    rw [decide_eq_false (by omega)]
    rfl
  have hrecords : side.owned.mapM side.writePresence
      = .ok (side.owned.map (presenceRecord side.meshId)) :=
    mapM_eq_ok fun update _ => writePresence_fullMesh hmode update
  unfold Accepting.writeBootstrap
  rw [hroom, hrecords, writeRecord_linkReady]
  rfl

/-- Without a presence of its own, the accepting side writes only the greeting. -/
theorem writeBootstrap_nil {side : Accepting} (h : side.owned = []) :
    side.writeBootstrap = .ok [Accepting.linkReady side.meshId] := by
  unfold Accepting.writeBootstrap
  rw [h, writeRecord_linkReady]
  rfl

/-- A sparse bootstrap starts with a forwarded record. -/
theorem writeBootstrap_sparse {side : Accepting} {revision : Nat} {records : List Record}
    (hmode : side.sparse = some revision) (howned : side.owned ≠ [])
    (h : side.writeBootstrap = .ok records) :
    ∃ body rest, records
      = .control { message := some (.forwarded side.meshId.asBytes body) } :: rest := by
  unfold Accepting.writeBootstrap at h
  obtain ⟨⟨⟩, -, h⟩ := bind_eq_ok.mp h
  obtain ⟨written, hwritten, h⟩ := bind_eq_ok.mp h
  obtain ⟨ready, -, h⟩ := bind_eq_ok.mp h
  cases h
  obtain ⟨update, rest, hcons⟩ := List.exists_cons_of_ne_nil howned
  rw [hcons, List.mapM_cons] at hwritten
  obtain ⟨first, hfirst, hwritten⟩ := bind_eq_ok.mp hwritten
  obtain ⟨others, -, hwritten⟩ := bind_eq_ok.mp hwritten
  cases hwritten
  unfold Accepting.writePresence at hfirst
  obtain ⟨envelope, henvelope, hfirst⟩ := bind_eq_ok.mp hfirst
  unfold writeRecord at hfirst
  obtain ⟨_, -, hfirst⟩ := bind_eq_ok.mp hfirst
  cases hfirst
  unfold Accepting.payload at henvelope
  rw [hmode] at henvelope
  obtain ⟨body, -, henvelope⟩ := bind_eq_ok.mp henvelope
  cases henvelope
  exact ⟨body, others ++ [ready], rfl⟩

theorem collect_cons {side : Connecting} (bootstrap : List Record) (meshId body : Bytes)
    (rest : List Record) :
    side.collect bootstrap (.control { message := some (.presence meshId body) } :: rest)
      = if bootstrap.length ≥ side.queueCapacity * 16 then .error .queueFull
        else side.collect (bootstrap ++ [.control { message := some (.presence meshId body) }]) rest :=
  rfl

theorem collect_linkReady (side : Connecting) (bootstrap : List Record) :
    side.collect bootstrap [Accepting.linkReady side.meshId] = .ok bootstrap := by
  unfold Accepting.linkReady Connecting.collect
  dsimp only
  rw [if_pos ⟨rfl, rfl⟩]

theorem collect_presences {side : Connecting} (updates : List PresenceAnnouncement)
    (bootstrap : List Record)
    (h : bootstrap.length + updates.length ≤ side.queueCapacity * 16) :
    side.collect bootstrap (updates.map (presenceRecord side.meshId)
      ++ [Accepting.linkReady side.meshId])
        = .ok (bootstrap ++ updates.map (presenceRecord side.meshId)) := by
  induction updates generalizing bootstrap with
  | nil =>
      rw [List.map_nil, List.append_nil]
      exact collect_linkReady side bootstrap
  | cons update rest ih =>
      rw [List.length_cons] at h
      have hroom : ¬ bootstrap.length ≥ side.queueCapacity * 16 := by omega
      have hrest := ih (bootstrap ++ [presenceRecord side.meshId update])
        (by rw [List.length_append, List.length_singleton]; omega)
      rw [List.append_assoc] at hrest
      rw [List.map_cons, List.cons_append]
      unfold presenceRecord at hrest ⊢
      rw [collect_cons, if_neg hroom]
      exact hrest

/-! ## Handling what was collected

An entry is taken over unless the connecting side knows something that contradicts it. Entries of different
keys do not meet.
-/

namespace Connecting

variable {side next : Connecting} {remote : RelayId} {update : PresenceAnnouncement}
variable {entry : PresenceEntry}

/-- The connecting side knows a larger generation. -/
def Superseded (side : Connecting) (entry : PresenceEntry) : Prop :=
  ∃ generation, side.cache.generations[presenceKey entry]? = some generation ∧
    entry.generation < generation

/-- Nothing the connecting side holds contradicts the entry: it knows a larger generation, or it
neither holds the same generation with other fields, nor saw that generation released, nor fenced a
new primary with a larger generation. -/
def Accepts (side : Connecting) (entry : PresenceEntry) : Prop :=
  side.Superseded entry ∨
    (∀ current, side.cache.entries[presenceKey entry]? = some current →
      PresenceCache.conflicts current { entry, released := false } = false) ∧
    (side.cache.entries[presenceKey entry]? = none →
      side.cache.generations[presenceKey entry]? ≠ some entry.generation) ∧
    (entry.role = .primary →
      side.cache.generations[presenceKey entry]?.all (· < entry.generation) = true →
        side.knownFences[entry.peerId]?.any (entry.generation < ·) = false)

/-- The connecting side holds the same about the entry's key and Peer. -/
structure SameFor (side next : Connecting) (entry : PresenceEntry) : Prop where
  entries : next.cache.entries[presenceKey entry]? = side.cache.entries[presenceKey entry]?
  generations : next.cache.generations[presenceKey entry]?
    = side.cache.generations[presenceKey entry]?
  fences : entry.role = .primary → next.knownFences[entry.peerId]? = side.knownFences[entry.peerId]?

theorem SameFor.superseded (h : SameFor side next entry) :
    next.Superseded entry ↔ side.Superseded entry := by
  unfold Superseded
  rw [h.generations]

theorem SameFor.accepts (h : SameFor side next entry) : next.Accepts entry ↔ side.Accepts entry := by
  unfold Accepts
  rw [h.superseded, h.entries, h.generations]
  refine or_congr_right (and_congr_right fun _ => and_congr_right fun _ => ?_)
  exact forall_congr' fun hrole => by rw [h.fences hrole]

theorem SameFor.trans {final : Connecting} (h₁ : SameFor side next entry)
    (h₂ : SameFor next final entry) : SameFor side final entry :=
  ⟨h₂.entries.trans h₁.entries, h₂.generations.trans h₁.generations,
    fun hrole => (h₂.fences hrole).trans (h₁.fences hrole)⟩

/-- Primary entries of one Peer share their key. -/
theorem peerId_ne {a b : PresenceEntry} (hkeys : presenceKey a ≠ presenceKey b)
    (ha : a.role = .primary) (hb : b.role = .primary) : a.peerId ≠ b.peerId := by
  intro hpeer
  refine hkeys ?_
  unfold presenceKey
  rw [ha, hb, hpeer]
  rfl

theorem observe_cases (h : side.observe remote update = .ok next) :
    ∃ advanced cache, side.cache.observe remote update = .ok (advanced, cache) ∧
      next.cache = cache ∧ next.meshId = side.meshId ∧
      ((!update.released && advanced && decide (update.entry.role = .primary)) = false ∧
        next.knownFences = side.knownFences ∨
      (update.entry.role = .primary ∧
        side.knownFences[update.entry.peerId]?.any (update.entry.generation < ·) = false ∧
        next.knownFences = side.knownFences.insert update.entry.peerId update.entry.generation)) := by
  unfold observe at h
  obtain ⟨⟨advanced, cache⟩, hobserved, h⟩ := bind_eq_ok.mp h
  dsimp only at h
  refine ⟨advanced, cache, hobserved, ?_⟩
  split at h
  · rename_i hfenced
    unfold observeFence at h
    dsimp only at h
    split at h
    · cases h
    · rename_i hroom
      cases h
      simp only [Bool.and_eq_true, decide_eq_true_eq] at hfenced
      exact ⟨rfl, rfl, .inr ⟨hfenced.2, Bool.eq_false_iff.mpr hroom, rfl⟩⟩
  · rename_i hplain
    cases h
    exact ⟨rfl, rfl, .inl ⟨Bool.eq_false_iff.mpr hplain, rfl⟩⟩

/-- An announcement changes nothing about other keys. -/
theorem observe_sameFor (h : side.observe remote update = .ok next)
    (hkey : presenceKey update.entry ≠ presenceKey entry) : SameFor side next entry := by
  obtain ⟨advanced, cache, hobserved, rfl, -, hfences⟩ := observe_cases h
  have htables : next.cache.entries[presenceKey entry]? = side.cache.entries[presenceKey entry]? ∧
      next.cache.generations[presenceKey entry]?
        = side.cache.generations[presenceKey entry]? := by
    rcases PresenceCache.observe_cases hobserved with ⟨hsame, -⟩ | ⟨hrecorded, -⟩
    · rw [hsame]
      exact ⟨rfl, rfl⟩
    · rw [hrecorded, PresenceCache.record_entries, PresenceCache.record_generations, if_neg hkey,
        if_neg hkey]
      exact ⟨rfl, rfl⟩
  refine ⟨htables.1, htables.2, fun hrole => ?_⟩
  rcases hfences with ⟨-, hsame⟩ | ⟨hprimary, -, hinserted⟩
  · rw [hsame]
  · rw [hinserted, ExtTreeMap.getElem?_insert, if_neg]
    rw [LawfulEqOrd.compare_eq_iff_eq]
    exact peerId_ne hkey hprimary hrole

theorem superseded_iff : side.Superseded entry ↔
    side.cache.generations[presenceKey entry]?.any (entry.generation < ·) = true := by
  unfold Superseded
  cases side.cache.generations[presenceKey entry]? <;> simp

/-- The cache after an entry that is not superseded. -/
theorem cache_observe_eq (hrelay : entry.relayId = remote) (hpositive : 0 < entry.generation)
    (hcurrent : ¬ side.Superseded entry) :
    side.cache.observe remote { entry, released := false } =
      match side.cache.entries[presenceKey entry]? with
      | some current =>
        if PresenceCache.conflicts current { entry, released := false } then .error .staleFence
        else .ok (side.cache.generations[presenceKey entry]?.all (· < entry.generation),
          side.cache.record { entry, released := false })
      | none =>
        if side.cache.generations[presenceKey entry]? = some entry.generation then
          .ok (false, side.cache)
        else .ok (side.cache.generations[presenceKey entry]?.all (· < entry.generation),
          side.cache.record { entry, released := false }) := by
  have hidentity : ¬ (decide (entry.relayId ≠ remote) || decide (entry.generation ≤ 0)) = true := by
    simp only [Bool.or_eq_true, decide_eq_true_eq, not_or, not_not, Int64.not_le]
    exact ⟨hrelay, hpositive⟩
  unfold PresenceCache.observe
  dsimp only
  rw [if_neg hidentity, if_neg (mt superseded_iff.mpr hcurrent)]
  cases side.cache.entries[presenceKey entry]? <;> simp only [Bool.or_false]

theorem observe_eq {advanced : Bool} {cache : PresenceCache}
    (h : side.cache.observe remote { entry, released := false } = .ok (advanced, cache)) :
    side.observe remote { entry, released := false } =
      if advanced && decide (entry.role = .primary) then
        ({ side with cache } : Connecting).observeFence entry.peerId entry.generation
      else .ok { side with cache } := by
  unfold observe
  rw [h]
  rfl

/-- A recorded entry is there unless the fence of a new primary refuses it. -/
theorem observe_recorded {advanced : Bool}
    (h : side.cache.observe remote { entry, released := false }
      = .ok (advanced, side.cache.record { entry, released := false })) :
    (∃ next, side.observe remote { entry, released := false } = .ok next ∧
      (¬ side.Superseded entry → next.cache.entries[presenceKey entry]? = some entry)) ↔
    (entry.role = .primary → advanced = true →
      side.knownFences[entry.peerId]?.any (entry.generation < ·) = false) := by
  have hrecorded : (side.cache.record { entry, released := false }).entries[presenceKey entry]?
      = some entry := by
    rw [PresenceCache.record_entries, if_pos rfl]
    rfl
  rw [observe_eq h]
  by_cases hneeded : (advanced && decide (entry.role = .primary)) = true
  · rw [if_pos hneeded]
    rw [Bool.and_eq_true, decide_eq_true_eq] at hneeded
    unfold observeFence
    dsimp only
    by_cases hfence : side.knownFences[entry.peerId]?.any (entry.generation < ·) = true
    · rw [if_pos hfence]
      constructor
      · rintro ⟨next, hok, -⟩
        cases hok
      · intro hclear
        rw [hclear hneeded.2 hneeded.1] at hfence
        cases hfence
    · rw [if_neg hfence]
      exact ⟨fun _ _ _ => Bool.eq_false_iff.mpr hfence, fun _ => ⟨_, rfl, fun _ => hrecorded⟩⟩
  · rw [if_neg hneeded]
    rw [Bool.and_eq_true, decide_eq_true_eq, not_and] at hneeded
    exact ⟨fun _ hprimary hadvanced => absurd hprimary (hneeded hadvanced),
      fun _ => ⟨_, rfl, fun _ => hrecorded⟩⟩

/-- An entry is taken over exactly when nothing contradicts it. -/
theorem observe_iff (hrelay : entry.relayId = remote) (hpositive : 0 < entry.generation) :
    (∃ next, side.observe remote { entry, released := false } = .ok next ∧
      (¬ side.Superseded entry → next.cache.entries[presenceKey entry]? = some entry)) ↔
    side.Accepts entry := by
  by_cases hcurrent : side.Superseded entry
  · -- a larger generation is known, so the entry is passed over
    refine ⟨fun _ => .inl hcurrent, fun _ => ?_⟩
    have hold : side.cache.observe remote { entry, released := false } = .ok (false, side.cache) := by
      have hidentity : ¬ (decide (entry.relayId ≠ remote) || decide (entry.generation ≤ 0)) = true := by
        simp only [Bool.or_eq_true, decide_eq_true_eq, not_or, not_not, Int64.not_le]
        exact ⟨hrelay, hpositive⟩
      unfold PresenceCache.observe
      dsimp only
      rw [if_neg hidentity, if_pos (superseded_iff.mp hcurrent)]
    rw [observe_eq hold]
    exact ⟨side, rfl, fun hnot => absurd hcurrent hnot⟩
  · have hobserve := cache_observe_eq hrelay hpositive hcurrent
    unfold Accepts
    rw [or_iff_right hcurrent]
    cases hentry : side.cache.entries[presenceKey entry]? with
    | some current =>
        rw [hentry] at hobserve
        dsimp only at hobserve
        -- the key has an entry, which agrees or conflicts
        by_cases hconflict : PresenceCache.conflicts current { entry, released := false } = true
        · rw [if_pos hconflict] at hobserve
          constructor
          · rintro ⟨next, hok, -⟩
            unfold observe at hok
            rw [hobserve] at hok
            cases hok
          · rintro ⟨hclear, -, -⟩
            rw [hclear current rfl] at hconflict
            cases hconflict
        · rw [if_neg hconflict] at hobserve
          rw [observe_recorded hobserve]
          refine ⟨fun hfence => ⟨fun found hfound => ?_, nofun, hfence⟩, fun h => h.2.2⟩
          cases hfound
          exact Bool.eq_false_iff.mpr hconflict
    | none =>
        rw [hentry] at hobserve
        dsimp only at hobserve
        -- the key has none; its generation may have been released
        by_cases hreleased : side.cache.generations[presenceKey entry]? = some entry.generation
        · rw [if_pos hreleased] at hobserve
          rw [observe_eq hobserve]
          constructor
          · rintro ⟨next, hok, hcontains⟩
            cases hok
            have hheld := hcontains hcurrent
            rw [hentry] at hheld
            cases hheld
          · rintro ⟨-, htombstone, -⟩
            exact absurd hreleased (htombstone rfl)
        · rw [if_neg hreleased] at hobserve
          rw [observe_recorded hobserve]
          exact ⟨fun hfence => ⟨nofun, fun _ => hreleased, hfence⟩, fun h => h.2.2⟩

theorem foldlM_sameFor (updates : List PresenceAnnouncement) {final : Connecting}
    (h : updates.foldlM (fun side update => side.observe remote update) side = .ok final)
    (hkeys : ∀ update ∈ updates, presenceKey update.entry ≠ presenceKey entry) :
    SameFor side final entry := by
  induction updates generalizing side with
  | nil =>
      cases h
      exact ⟨rfl, rfl, fun _ => rfl⟩
  | cons update rest ih =>
      rw [List.foldlM_cons] at h
      obtain ⟨next, hnext, hrest⟩ := bind_eq_ok.mp h
      exact (observe_sameFor hnext (hkeys update List.mem_cons_self)).trans
        (ih hrest fun other hother => hkeys other (List.mem_cons_of_mem _ hother))

/-- A list of entries with different keys is taken over exactly when nothing contradicts any. -/
theorem foldlM_observe_iff (updates : List PresenceAnnouncement)
    (hkeys : (updates.map fun update => presenceKey update.entry).Nodup)
    (hown : ∀ update ∈ updates, update.released = false ∧ update.entry.relayId = remote ∧
      0 < update.entry.generation) (side : Connecting) :
    (∃ final, updates.foldlM (fun side update => side.observe remote update) side = .ok final ∧
      ∀ update ∈ updates, ¬ side.Superseded update.entry →
        final.cache.entries[presenceKey update.entry]? = some update.entry) ↔
    ∀ update ∈ updates, side.Accepts update.entry := by
  induction updates generalizing side with
  | nil => exact ⟨fun _ => nofun, fun _ => ⟨side, rfl, nofun⟩⟩
  | cons update rest ih =>
      obtain ⟨hfresh, hrestKeys⟩ := List.nodup_cons.mp hkeys
      have hne : ∀ other ∈ rest, presenceKey update.entry ≠ presenceKey other.entry := by
        intro other hother heq
        exact hfresh (List.mem_map.mpr ⟨other, hother, heq.symm⟩)
      obtain ⟨hlive, hrelay, hpositive⟩ := hown update List.mem_cons_self
      have hupdate : update = { entry := update.entry, released := false } := by
        rw [← hlive]
      have hstep := @observe_iff side remote update.entry hrelay hpositive
      rw [← hupdate] at hstep
      have hrest := ih hrestKeys fun other hother => hown other (List.mem_cons_of_mem _ hother)
      have hsame : ∀ {next : Connecting}, side.observe remote update = .ok next →
          ∀ other ∈ rest, SameFor side next other.entry := fun hnext other hother =>
        observe_sameFor hnext (hne other hother)
      rw [List.forall_mem_cons, ← hstep]
      constructor
      · rintro ⟨final, hfold, hcontains⟩
        rw [List.foldlM_cons] at hfold
        obtain ⟨next, hnext, hfold⟩ := bind_eq_ok.mp hfold
        have hkept : SameFor next final update.entry :=
          foldlM_sameFor rest hfold fun other hother => (hne other hother).symm
        refine ⟨⟨next, hnext, fun hcurrent => ?_⟩, fun other hother => ?_⟩
        · rw [← hkept.entries]
          exact hcontains update List.mem_cons_self hcurrent
        · rw [← (hsame hnext other hother).accepts]
          refine (hrest next).mp ⟨final, hfold, fun found hfound hcurrent => ?_⟩ other hother
          exact hcontains found (List.mem_cons_of_mem _ hfound)
            (mt (hsame hnext found hfound).superseded.mpr hcurrent)
      · rintro ⟨⟨next, hnext, hcontains⟩, haccepts⟩
        obtain ⟨final, hfold, hothers⟩ := (hrest next).mpr fun other hother =>
          (hsame hnext other hother).accepts.mpr (haccepts other hother)
        have hkept : SameFor next final update.entry :=
          foldlM_sameFor rest hfold fun other hother => (hne other hother).symm
        refine ⟨final, ?_, List.forall_mem_cons.mpr ⟨fun hcurrent => ?_, fun found hfound hcurrent => ?_⟩⟩
        · rw [List.foldlM_cons]
          exact bind_eq_ok.mpr ⟨next, hnext, hfold⟩
        · rw [hkept.entries]
          exact hcontains hcurrent
        · exact hothers found hfound (mt (hsame hnext found hfound).superseded.mp hcurrent)

end Connecting

/-! ## Both ends

In sparse mode the records are wrapped, and the loop of the other end lets none of these through.
-/

/-- The exchange as a whole: everything the accepting side writes is accepted, one record is collected
for each of its presences, and handling them leaves those presences in the cache, with deadlines in
whole seconds, unless a larger generation was known. -/
def Agree (accepting : Accepting) (connecting : Connecting) : Prop :=
  ∃ records bootstrap final, accepting.writeBootstrap = .ok records ∧
    connecting.collect [] records = .ok bootstrap ∧
    bootstrap.length = accepting.owned.length ∧
    bootstrap.foldlM (fun side record => side.handle accepting.relayId record) connecting
      = .ok final ∧
    ∀ update ∈ accepting.owned, ¬ connecting.Superseded update.received.entry →
      final.cache.entries[presenceKey update.entry]? = some update.received.entry

theorem collect_forwarded (side : Connecting) (meshId body : Bytes) (rest : List Record) :
    side.collect [] (.control { message := some (.forwarded meshId body) } :: rest)
      = .error (.wire .kindMismatch) := rfl

theorem handle_presenceRecord (side : Connecting) (remote : RelayId) (update : PresenceAnnouncement) :
    side.handle remote (presenceRecord side.meshId update) = side.observe remote update.received := by
  unfold presenceRecord Connecting.handle
  dsimp only
  rw [decodePresence_encodePresence, decide_eq_false (not_not.mpr rfl)]
  rfl

theorem foldlM_handle {meshId : MeshId} {remote : RelayId} (updates : List PresenceAnnouncement)
    (side : Connecting) (hmesh : side.meshId = meshId) :
    (updates.map (presenceRecord meshId)).foldlM (fun side record => side.handle remote record) side
      = (updates.map (·.received)).foldlM (fun side update => side.observe remote update) side := by
  induction updates generalizing side with
  | nil => rfl
  | cons update rest ih =>
      rw [List.map_cons, List.map_cons, List.foldlM_cons, List.foldlM_cons]
      subst hmesh
      rw [handle_presenceRecord]
      cases hobserved : side.observe remote update.received with
      | error failure => rfl
      | ok next =>
          obtain ⟨_, _, -, -, hsame, -⟩ := Connecting.observe_cases hobserved
          exact ih next hsame

/-- The presences of the accepting side are live, its own, of positive generations, and have
different keys. -/
theorem owned_spec {side : Accepting} (hvalid : side.cache.Valid) :
    (∀ update ∈ side.owned, update.released = false ∧ update.entry.relayId = side.relayId ∧
      0 < update.entry.generation) ∧
    (side.owned.map fun update => presenceKey update.entry).Nodup := by
  unfold Accepting.owned PresenceCache.announcementsOwnedBy
  constructor
  · intro update hupdate
    obtain ⟨entry, hentry, rfl⟩ := List.mem_map.mp hupdate
    obtain ⟨hmem, hrelay⟩ := List.mem_filter.mp hentry
    obtain ⟨⟨key, held⟩, hheld, rfl⟩ := List.mem_map.mp hmem
    have hkeyed := hvalid.keyed key held (ExtTreeMap.mem_toList_iff_getElem?_eq_some.mp hheld)
    exact ⟨rfl, of_decide_eq_true hrelay, hvalid.positive key held.generation hkeyed.2⟩
  · rw [List.map_map]
    have hkeys : (side.cache.entries.toList.map Prod.snd).map presenceKey = side.cache.entries.keys := by
      rw [← ExtTreeMap.map_fst_toList_eq_keys, List.map_map]
      refine List.map_congr_left fun pair hpair => ?_
      obtain ⟨key, held⟩ := pair
      exact (hvalid.keyed key held (ExtTreeMap.mem_toList_iff_getElem?_eq_some.mp hpair)).1.symm
    have hnodup : ((side.cache.entries.toList.map Prod.snd).map presenceKey).Nodup :=
      hkeys ▸ ExtTreeMap.nodup_keys
    exact hnodup.sublist (List.filter_sublist.map presenceKey)

/-- The two ends agree exactly when the accepting side is not in sparse mode, or has no presence of
its own, and the connecting side holds nothing that contradicts a presence. -/
theorem agree_iff {accepting : Accepting} {connecting : Connecting}
    (hmesh : connecting.meshId = accepting.meshId)
    (hcapacity : connecting.queueCapacity = accepting.queueCapacity)
    (hvalid : accepting.cache.Valid)
    (hbound : accepting.owned.length ≤ accepting.queueCapacity * 16) :
    Agree accepting connecting ↔
      (accepting.sparse = none ∨ accepting.owned = []) ∧
        ∀ update ∈ accepting.owned, connecting.Accepts update.received.entry := by
  obtain ⟨hown, hkeys⟩ := owned_spec hvalid
  by_cases hmode : accepting.sparse = none ∨ accepting.owned = []
  · -- the bootstrap is one presence record for each presence, then the greeting
    have hwritten : accepting.writeBootstrap = .ok (accepting.owned.map
        (presenceRecord accepting.meshId) ++ [Accepting.linkReady accepting.meshId]) := by
      rcases hmode with hfull | hnone
      · exact writeBootstrap_fullMesh hfull hbound
      · rw [writeBootstrap_nil hnone, hnone]
        rfl
    have hcollected : connecting.collect [] (accepting.owned.map (presenceRecord accepting.meshId)
        ++ [Accepting.linkReady accepting.meshId])
          = .ok (accepting.owned.map (presenceRecord accepting.meshId)) := by
      have hroom : ([] : List Record).length + accepting.owned.length
          ≤ connecting.queueCapacity * 16 := by
        rw [List.length_nil, hcapacity]
        omega
      exact hmesh ▸ collect_presences accepting.owned [] hroom
    have hhandled := @foldlM_handle _ accepting.relayId accepting.owned connecting hmesh
    have htaken := @Connecting.foldlM_observe_iff accepting.relayId
      (accepting.owned.map (·.received)) (by rw [List.map_map]; exact hkeys)
      (by
        intro update hupdate
        obtain ⟨original, horiginal, rfl⟩ := List.mem_map.mp hupdate
        exact hown original horiginal) connecting
    rw [List.forall_mem_map] at htaken
    unfold Agree
    rw [and_iff_right hmode, ← htaken]
    constructor
    · rintro ⟨records, bootstrap, final, hrecords, hbootstrap, -, hfinal, hcontains⟩
      cases hwritten.symm.trans hrecords
      cases hcollected.symm.trans hbootstrap
      exact ⟨final, hhandled.symm.trans hfinal, List.forall_mem_map.mpr hcontains⟩
    · rintro ⟨final, hfinal, hcontains⟩
      refine ⟨_, _, final, hwritten, hcollected, List.length_map .., hhandled.trans hfinal, ?_⟩
      exact List.forall_mem_map.mp hcontains
  · -- the first record is one the reader does not know
    rw [iff_false_right fun h => hmode h.1]
    rintro ⟨records, bootstrap, -, hrecords, hbootstrap, -⟩
    obtain ⟨hsparse, howned⟩ := not_or.mp hmode
    obtain ⟨revision, hrevision⟩ := Option.ne_none_iff_exists'.mp hsparse
    obtain ⟨body, rest, rfl⟩ := writeBootstrap_sparse hrevision howned hrecords
    rw [collect_forwarded] at hbootstrap
    cases hbootstrap

section Examples

def relayOne : RelayId := ⟨0x00000000000040008000000000000004#128, Types.random_four⟩

def onePresence : PresenceEntry where
  peerId := peerOne
  relayId := relayOne
  attachmentId := peerTwo
  role := .primary
  generation := 5
  leaseDeadline := ⟨1700000000, 0, by decide⟩

/-- A Relay with one primary presence of its own. -/
def holding (sparse : Option Nat) : Accepting where
  meshId := meshOne
  relayId := relayOne
  queueCapacity := 8
  cache := ({} : PresenceCache).record { entry := onePresence, released := false }
  sparse := sparse

def fresh : Connecting where
  meshId := meshOne
  queueCapacity := 8
  cache := {}
  knownFences := ∅

theorem valid_holding (sparse : Option Nat) : (holding sparse).cache.Valid := by
  have hobserved : ({} : PresenceCache).observe relayOne { entry := onePresence, released := false }
      = .ok (true, (holding sparse).cache) := rfl
  exact PresenceCache.valid_empty.observe hobserved

theorem owned_holding (sparse : Option Nat) :
    (holding sparse).owned = [{ entry := onePresence, released := false }] := by
  have howned : (({} : PresenceCache).record
      { entry := onePresence, released := false }).announcementsOwnedBy relayOne
        = [{ entry := onePresence, released := false }] := by
    decide +kernel
  exact howned

/-- In a full mesh the presence reaches a Relay that knows nothing. -/
theorem fullMesh_bootstrap_agrees : Agree (holding none) fresh := by
  have hbound : (holding none).owned.length ≤ (holding none).queueCapacity * 16 := by
    rw [owned_holding]
    decide
  refine (agree_iff rfl rfl (valid_holding none) hbound).mpr ⟨.inl rfl, fun update _ => .inr ?_⟩
  have hentries : fresh.cache.entries[presenceKey update.received.entry]? = none :=
    ExtTreeMap.getElem?_empty
  have hgenerations : fresh.cache.generations[presenceKey update.received.entry]? = none :=
    ExtTreeMap.getElem?_empty
  have hfences : fresh.knownFences[update.received.entry.peerId]? = none :=
    ExtTreeMap.getElem?_empty
  rw [hentries, hgenerations, hfences]
  exact ⟨nofun, fun _ => nofun, fun _ _ => rfl⟩

/-- In sparse mode the same presence ends the link. -/
theorem sparse_bootstrap_fails : ¬ Agree (holding (some 1)) fresh := by
  rintro ⟨records, bootstrap, -, hrecords, hbootstrap, -⟩
  have howned : (holding (some 1)).owned ≠ [] := by
    rw [owned_holding]
    nofun
  obtain ⟨body, rest, rfl⟩ := @writeBootstrap_sparse (holding (some 1)) 1 _ rfl howned hrecords
  rw [collect_forwarded] at hbootstrap
  cases hbootstrap

end Examples

end Peerward.Relay
