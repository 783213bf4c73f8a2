import Peerward.Lib.Run
import Peerward.Store.Presence

/-!
# Convergence of the presence cache

The store and the cache of one Relay, under every interleaving of store operations, announcements of
them and snapshots. An announcement is of a lease the store has granted; its deadline is left open,
since renewals that never reached the store are announced with theirs. A snapshot was read from the
store at some time after the revision it was started at.

Generations and releases hold in every run. What can be lost is an entry the cache drops because a
snapshot does not list it: the generation it leaves behind looks like a release.
-/

namespace Peerward.Relay

open Std Peerward.Lib
open Peerward.Types (Id PeerId RelayId)
open Peerward.Store (PresenceLease PresenceTables)

/-- What a presence entry says besides its deadline. -/
def PresenceEntry.identity (entry : PresenceEntry) : PeerId × RelayId × Id × PresenceRole × Int64 :=
  (entry.peerId, entry.relayId, entry.attachmentId, entry.role, entry.generation)

theorem presenceKey_of_identity {a b : PresenceEntry} (h : a.identity = b.identity) :
    presenceKey a = presenceKey b := by
  simp only [PresenceEntry.identity, Prod.mk.injEq] at h
  obtain ⟨hpeer, hrelay, -, hrole, -⟩ := h
  rw [presenceKey, presenceKey, hpeer, hrelay, hrole]

theorem peerId_of_presenceKey {a b : PresenceEntry} (h : presenceKey a = presenceKey b) :
    a.peerId = b.peerId :=
  congrArg PresenceKey.peerId h

theorem generation_of_identity {a b : PresenceEntry} (h : a.identity = b.identity) :
    a.generation = b.generation :=
  congrArg (·.2.2.2.2) h

/-! ## Fences of the cache

A generation that was reached or fenced stays so: observations and snapshots move the fence of a key up
only.
-/

namespace PresenceCache

variable {cache next : PresenceCache} {relay : RelayId} {update : PresenceAnnouncement}
  {key : PresenceKey} {generation : Int64} {rows : List PresenceEntry} {started : Nat}

/-- The generation is recorded for the key, or a larger one. -/
def Reached (cache : PresenceCache) (key : PresenceKey) (generation : Int64) : Prop :=
  ∃ current, cache.generations[key]? = some current ∧ generation ≤ current

/-- No entry of the key has the generation or a smaller one, now or later. -/
def Fenced (cache : PresenceCache) (key : PresenceKey) (generation : Int64) : Prop :=
  cache.Reached key generation ∧
    ∀ entry, cache.entries[key]? = some entry → generation < entry.generation

theorem Reached.observe {advanced : Bool} (h : cache.Reached key generation)
    (hobserved : cache.observe relay update = .ok (advanced, next)) :
    next.Reached key generation := by
  rcases observe_ok hobserved with ⟨rfl, -⟩ | ⟨rfl, hreached, -⟩
  · exact h
  · obtain ⟨current, hcurrent, hle⟩ := h
    unfold Reached
    rw [record_generations]
    split
    · rename_i hkey
      subst hkey
      exact ⟨_, rfl, Int64.le_trans hle (hreached current hcurrent)⟩
    · exact ⟨current, hcurrent, hle⟩

/-- An observation reaches the generation it is about. -/
theorem reached_observe {advanced : Bool}
    (hobserved : cache.observe relay update = .ok (advanced, next)) :
    next.Reached (presenceKey update.entry) update.entry.generation := by
  rcases observe_ok hobserved with ⟨rfl, current, hcurrent, hbehind⟩ | ⟨rfl, -⟩
  · exact ⟨current, hcurrent, by grind⟩
  · unfold Reached
    rw [record_generations, if_pos rfl]
    exact ⟨_, rfl, Int64.le_refl _⟩

theorem Fenced.observe {advanced : Bool} (hvalid : cache.Valid) (h : cache.Fenced key generation)
    (hobserved : cache.observe relay update = .ok (advanced, next)) :
    next.Fenced key generation := by
  refine ⟨h.1.observe hobserved, fun entry hentry => ?_⟩
  rcases observe_ok hobserved with ⟨rfl, -⟩ | ⟨rfl, hreached, hfresh⟩
  · exact h.2 entry hentry
  · rw [record_entries] at hentry
    split at hentry
    · rename_i hkey
      subst hkey
      split at hentry
      · cases hentry
      · cases hentry
        -- the entry that is new is not below the generation recorded, and not that of the fence
        obtain ⟨current, hcurrent, hle⟩ := h.1
        have hcovers := hreached current hcurrent
        by_contra hnot
        have hsame : current = update.entry.generation := by grind
        subst hsame
        cases hheld : cache.entries[presenceKey update.entry]? with
        | none => exact hfresh hheld hcurrent
        | some held =>
            have hgeneration := (hvalid.keyed _ held hheld).2
            rw [hcurrent] at hgeneration
            have hless := h.2 held hheld
            rw [← Option.some.inj hgeneration] at hless
            exact hnot hless
    · exact h.2 entry hentry

/-- A release puts up the fence. -/
theorem fenced_observe {advanced : Bool} (hvalid : cache.Valid) (hreleased : update.released = true)
    (hobserved : cache.observe relay update = .ok (advanced, next)) :
    next.Fenced (presenceKey update.entry) update.entry.generation := by
  refine ⟨reached_observe hobserved, fun entry hentry => ?_⟩
  rcases observe_ok hobserved with ⟨rfl, current, hcurrent, hless | ⟨-, hnone⟩⟩ | ⟨rfl, -⟩
  · have hgeneration := (hvalid.keyed _ entry hentry).2
    rw [hcurrent] at hgeneration
    rw [← Option.some.inj hgeneration]
    exact hless
  · rw [hnone] at hentry
    cases hentry
  · rw [record_entries, if_pos rfl, if_pos hreleased] at hentry
    cases hentry

theorem retain_entries (cache : PresenceCache) (rows : List PresenceEntry) (started : Nat)
    (key : PresenceKey) :
    (cache.retain rows started).entries[key]? = cache.entries[key]?.filter fun _ =>
      rows.any (presenceKey · = key) || cache.touchedSince started key :=
  ExtTreeMap.getElem?_filter'

/-- What a snapshot does not drop was there. -/
theorem of_retain_entries {entry : PresenceEntry}
    (h : (cache.retain rows started).entries[key]? = some entry) :
    cache.entries[key]? = some entry := by
  rw [retain_entries] at h
  exact (Option.filter_eq_some_iff.mp h).1

theorem Valid.retain (hvalid : cache.Valid) : (cache.retain rows started).Valid :=
  ⟨fun key entry h => hvalid.keyed key entry (of_retain_entries h), hvalid.positive⟩

/-- What an observation of a row keeps, a snapshot keeps. -/
theorem observeRows_keeps {I : PresenceCache → Prop}
    (keep : ∀ cache next advanced row, I cache → cache.observeLocal row = .ok (advanced, next) → I next)
    (h : I cache) : I (cache.observeRows started rows).2 := by
  induction rows generalizing cache with
  | nil => exact h
  | cons row rows ih =>
      unfold observeRows
      split
      · exact ih h
      · split
        · exact h
        · rename_i advanced next hobserved
          exact ih (keep cache next advanced row h hobserved)

theorem Valid.installSnapshot (hvalid : cache.Valid) :
    (cache.installSnapshot rows started).2.Valid :=
  observeRows_keeps (fun _ _ _ _ h hobserved => h.observe hobserved) hvalid.retain

theorem Reached.installSnapshot (h : cache.Reached key generation) :
    (cache.installSnapshot rows started).2.Reached key generation :=
  observeRows_keeps (I := fun cache => cache.Reached key generation)
    (fun _ _ _ _ h hobserved => h.observe hobserved) h

theorem Fenced.installSnapshot (hvalid : cache.Valid) (h : cache.Fenced key generation) :
    (cache.installSnapshot rows started).2.Fenced key generation := by
  have hboth : (cache.installSnapshot rows started).2.Valid ∧
      (cache.installSnapshot rows started).2.Fenced key generation := by
    refine observeRows_keeps (I := fun cache => cache.Valid ∧ cache.Fenced key generation)
      (fun _ _ _ _ h hobserved => ⟨h.1.observe hobserved, h.2.observe h.1 hobserved⟩)
      ⟨hvalid.retain, h.1, fun entry hentry => h.2 entry (of_retain_entries hentry)⟩
  exact hboth.2

end PresenceCache

/-! ## The store and the cache

Two sides with their own operations. Announcements and snapshots go from the store to the cache and may be
late; what they say was true when they were made.
-/

structure PresenceState where
  tables : PresenceTables := {}
  cache : PresenceCache := {}

namespace PresenceState

inductive Op where
  | acquire (peerEnabled : Bool) (now : OffsetDateTime) (request : PresenceLease)
  | renew (peerEnabled : Bool) (now : OffsetDateTime) (request : PresenceLease) (generation : Int64)
  | release (request : PresenceLease) (generation : Int64)
  /-- A local observation, or an announcement of an authenticated Relay. -/
  | announce (relay : RelayId) (update : PresenceAnnouncement)
  | install (rows : List PresenceEntry) (started : Nat)

/-- An operation that fails leaves its side as it was. -/
def step (s : PresenceState) : Op → PresenceState
  | .acquire peerEnabled now request =>
    match s.tables.acquirePresence peerEnabled now request with
    | .ok (_, tables) => { s with tables }
    | .error _ => s
  | .renew peerEnabled now request generation =>
    match s.tables.renewPresence peerEnabled now request generation with
    | .ok tables => { s with tables }
    | .error _ => s
  | .release request generation =>
    match s.tables.releasePresence request generation with
    | .ok tables => { s with tables }
    | .error _ => s
  | .announce relay update =>
    match s.cache.observe relay update with
    | .ok (_, cache) => { s with cache }
    | .error _ => s
  | .install rows started => { s with cache := (s.cache.installSnapshot rows started).2 }

/-- The state of a run from an empty store and an empty cache. -/
abbrev after (ops : List Op) : PresenceState := exec step {} ops

theorem after_concat (ops : List Op) (op : Op) : after (ops ++ [op]) = (after ops).step op :=
  exec_concat ..

/-- The operation acquires the lease of the entry. -/
def Grants (entry : PresenceEntry) (s : PresenceState) (op : Op) : Prop :=
  ∃ peerEnabled now request generation tables, op = .acquire peerEnabled now request ∧
    s.tables.acquirePresence peerEnabled now request = .ok (generation, tables) ∧
    entry.identity = (request.row generation).identity

def Granted (entry : PresenceEntry) (ops : List Op) : Prop := Happened step {} (Grants entry) ops

/-- The cache takes in a release of the generation. -/
def ObservesRelease (key : PresenceKey) (generation : Int64) (s : PresenceState) (op : Op) : Prop :=
  ∃ relay update result, op = .announce relay update ∧ update.released = true ∧
    presenceKey update.entry = key ∧ update.entry.generation = generation ∧
    s.cache.observe relay update = .ok result

def Released (key : PresenceKey) (generation : Int64) (ops : List Op) : Prop :=
  Happened step {} (ObservesRelease key generation) ops

/-- The rows are those of a query that ran after the revision `started` was read. -/
def Queried (rows : List PresenceEntry) (started : Nat) (ops : List Op) : Prop :=
  ∃ early middle late clock, ops = early ++ middle ++ late ∧
    started = (after early).cache.revision ∧
    rows = (after (early ++ middle)).tables.snapshot clock

/-- Announcements are of leases the store has granted, snapshots are read from the store. -/
def Honest (before : List Op) : Op → Prop
  | .announce _ update => Granted update.entry before
  | .install rows started => Queried rows started before
  | _ => True

/-! ## What should hold

After a quiet snapshot the cache has every lease that the store still has. It does not if an earlier
snapshot has dropped the entry of a lease that was renewed since.
-/

/-- The cache converges to the store. -/
structure Converges (ops : List Op) : Prop where
  /-- The generation of a key never decreases. -/
  fenced : ∀ before more, ops = before ++ more → ∀ (key : PresenceKey) (generation : Int64),
    (after before).cache.generations[key]? = some generation →
      (after ops).cache.Reached key generation
  /-- After a release has been observed, no entry of its generation or a smaller one appears. -/
  released : ∀ key generation, Released key generation ops → ∀ entry,
    (after ops).cache.entries[key]? = some entry → generation < entry.generation
  /-- A snapshot during which nothing else happens is installed, and every row of it has an entry
  unless its release has been observed. -/
  complete : ∀ before clock, ops = before ++
      [.install ((after before).tables.snapshot clock) (after before).cache.revision] →
    ((after before).cache.installSnapshot ((after before).tables.snapshot clock)
        (after before).cache.revision).1 = .ok () ∧
      ∀ row ∈ (after before).tables.snapshot clock,
        ¬ Released (presenceKey row) row.generation before →
        ∃ entry, (after ops).cache.entries[presenceKey row]? = some entry ∧
          entry.identity = row.identity

/-- A snapshot drops no entry of a lease that the store still has a row of. -/
def DropsDeadOnly (s : PresenceState) : Op → Prop
  | .install rows started => ∀ (key : PresenceKey) (entry row : PresenceEntry),
      s.cache.entries[key]? = some entry →
      (s.cache.retain rows started).entries[key]? = none →
      s.tables.rows[key]? = some row → row.generation ≠ entry.generation
  | _ => True

/-! ## The store allocates every generation once

A generation is granted to one lease, because the counter of a Peer only grows and rows are not ahead of
it.
-/

/-- The rows are of granted leases, and no lease granted is ahead of its row or its counter. -/
structure Granting (granted : PresenceEntry → Prop) (tables : PresenceTables) : Prop where
  row : ∀ (key : PresenceKey) (row : PresenceEntry), tables.rows[key]? = some row →
    key = presenceKey row ∧ granted row
  counter : ∀ entry, granted entry → 0 < entry.generation ∧
    ∃ counter, tables.generations[entry.peerId]? = some counter ∧ entry.generation ≤ counter
  unique : ∀ a b, granted a → granted b → a.peerId = b.peerId → a.generation = b.generation →
    a.identity = b.identity
  latest : ∀ entry row, granted entry → tables.rows[presenceKey entry]? = some row →
    entry.generation ≤ row.generation
  same : ∀ a b, granted a → a.identity = b.identity → granted b

variable {granted granted' : PresenceEntry → Prop} {tables next : PresenceTables}
  {request : PresenceLease} {generation : Int64}

theorem granting_empty : Granting (fun _ => False) {} where
  row key row h := by simp at h
  counter _ h := h.elim
  unique _ _ h := h.elim
  latest _ _ h := h.elim
  same _ _ h := h.elim

/-- Which entries are granted matters, not how. -/
theorem Granting.congr (h : Granting granted tables) (heq : ∀ entry, granted' entry ↔ granted entry) :
    Granting granted' tables := by
  have hsame : granted' = granted := funext fun entry => propext (heq entry)
  rw [hsame]
  exact h

theorem Granting.acquire (h : Granting granted tables) {peerEnabled : Bool} {now : OffsetDateTime}
    (hacquired : tables.acquirePresence peerEnabled now request = .ok (generation, next)) :
    Granting (fun entry => granted entry ∨ entry.identity = (request.row generation).identity)
      next := by
  obtain ⟨hallocated, rfl⟩ := PresenceTables.acquirePresence_ok hacquired
  obtain ⟨hpositive, hfresh⟩ := PresenceTables.allocate_spec hallocated
  -- the new generation is ahead of every lease that was granted to the Peer
  have hahead : ∀ entry, granted entry → entry.peerId = request.peerId →
      entry.generation < generation := by
    intro entry hentry hpeer
    obtain ⟨-, counter, hcounter, hle⟩ := h.counter entry hentry
    rw [hpeer] at hcounter
    have := hfresh counter hcounter
    grind
  have hpeer : ∀ {entry : PresenceEntry}, entry.identity = (request.row generation).identity →
      entry.peerId = request.peerId := fun heq => congrArg (·.1) heq
  have hgen : ∀ {entry : PresenceEntry}, entry.identity = (request.row generation).identity →
      entry.generation = generation := fun heq => generation_of_identity heq
  refine ⟨?_, ?_, ?_, ?_, ?_⟩
  · intro key row hrow
    simp only [ExtTreeMap.getElem?_insert, LawfulEqOrd.compare_eq_iff_eq] at hrow
    split at hrow
    · rename_i hkey
      cases hrow
      exact ⟨hkey.symm, .inr rfl⟩
    · exact ⟨(h.row key row hrow).1, .inl (h.row key row hrow).2⟩
  · intro entry hentry
    simp only [ExtTreeMap.getElem?_insert, LawfulEqOrd.compare_eq_iff_eq]
    rcases hentry with hentry | heq
    · obtain ⟨hpos, counter, hcounter, hle⟩ := h.counter entry hentry
      refine ⟨hpos, ?_⟩
      split
      · rename_i hsame
        exact ⟨_, rfl, Int64.le_of_lt (hahead entry hentry hsame.symm)⟩
      · exact ⟨counter, hcounter, hle⟩
    · rw [hgen heq, if_pos (hpeer heq).symm]
      exact ⟨hpositive, _, rfl, Int64.le_refl _⟩
  · intro a b ha hb hpeers hgenerations
    rcases ha with ha | ha <;> rcases hb with hb | hb
    · exact h.unique a b ha hb hpeers hgenerations
    · have := hahead a ha (hpeers.trans (hpeer hb))
      rw [hgenerations, hgen hb] at this
      exact (Int64.lt_irrefl this).elim
    · have := hahead b hb (hpeers.symm.trans (hpeer ha))
      rw [← hgenerations, hgen ha] at this
      exact (Int64.lt_irrefl this).elim
    · exact ha.trans hb.symm
  · intro entry row hentry hrow
    simp only [ExtTreeMap.getElem?_insert, LawfulEqOrd.compare_eq_iff_eq] at hrow
    split at hrow
    · rename_i hkey
      cases hrow
      show entry.generation ≤ generation
      rcases hentry with hentry | heq
      · exact Int64.le_of_lt (hahead entry hentry (peerId_of_presenceKey hkey).symm)
      · rw [hgen heq]
        exact Int64.le_refl _
    · rename_i hkey
      rcases hentry with hentry | heq
      · exact h.latest entry row hentry hrow
      · exact absurd (presenceKey_of_identity heq).symm hkey
  · intro a b ha heq
    rcases ha with ha | ha
    · exact .inl (h.same a b ha heq)
    · exact .inr (heq.symm.trans ha)

theorem Granting.renew (h : Granting granted tables) {peerEnabled : Bool} {now : OffsetDateTime}
    (hrenewed : tables.renewPresence peerEnabled now request generation = .ok next) :
    Granting granted next := by
  obtain ⟨hholds, rfl⟩ := PresenceTables.renewPresence_ok hrenewed
  obtain ⟨row, hrow, hrelay, hattachment, hgeneration⟩ := PresenceTables.holds_iff.mp hholds
  obtain ⟨hkey, hgranted⟩ := h.row _ row hrow
  -- the key settles the peer and the role
  have hidentity : row.identity = (request.row generation).identity := by
    simp only [PresenceEntry.identity, Prod.mk.injEq]
    exact ⟨(peerId_of_presenceKey hkey).symm, hrelay, hattachment,
      (congrArg PresenceKey.role hkey).symm, hgeneration⟩
  refine ⟨?_, h.counter, h.unique, ?_, h.same⟩
  · intro key row' hrow'
    simp only [ExtTreeMap.getElem?_insert, LawfulEqOrd.compare_eq_iff_eq] at hrow'
    split at hrow'
    · rename_i hsame
      cases hrow'
      exact ⟨hsame.symm, h.same row _ hgranted hidentity⟩
    · exact h.row key row' hrow'
  · intro entry row' hentry hrow'
    simp only [ExtTreeMap.getElem?_insert, LawfulEqOrd.compare_eq_iff_eq] at hrow'
    split at hrow'
    · rename_i hsame
      cases hrow'
      rw [hsame] at hrow
      show entry.generation ≤ generation
      rw [← hgeneration]
      exact h.latest entry row hentry hrow
    · exact h.latest entry row' hentry hrow'

theorem Granting.release (h : Granting granted tables)
    (hreleased : tables.releasePresence request generation = .ok next) : Granting granted next := by
  have hrows : ∀ (key : PresenceKey) (row : PresenceEntry), next.rows[key]? = some row →
      tables.rows[key]? = some row := by
    intro key row hrow
    rw [PresenceTables.releasePresence_ok hreleased] at hrow
    simp only [ExtTreeMap.getElem?_erase] at hrow
    split at hrow
    · cases hrow
    · exact hrow
  refine ⟨fun key row hrow => h.row key row (hrows key row hrow), ?_, h.unique,
    fun entry row hentry hrow => h.latest entry row hentry (hrows _ row hrow), h.same⟩
  intro entry hentry
  rw [PresenceTables.releasePresence_ok hreleased]
  exact h.counter entry hentry

/-- Only an acquisition that succeeds grants anything. -/
theorem granted_concat {entry : PresenceEntry} {ops : List Op} {op : Op} :
    Granted entry (ops ++ [op]) ↔ Granted entry ops ∨ Grants entry (after ops) op :=
  happened_concat

/-- An operation that acquires nothing leaves the granted leases. -/
theorem granted_concat_of_not {entry : PresenceEntry} {ops : List Op} {op : Op}
    (h : ¬ Grants entry (after ops) op) : Granted entry (ops ++ [op]) ↔ Granted entry ops := by
  rw [granted_concat, or_iff_left h]

theorem granting_after (ops : List Op) : Granting (Granted · ops) (after ops).tables := by
  induction ops using List.reverseRecOn with
  | nil => exact granting_empty.congr fun _ => ⟨happened_nil, False.elim⟩
  | append_singleton ops op ih =>
      rw [after_concat]
      cases op with
      | acquire peerEnabled now request =>
          cases hresult : (after ops).tables.acquirePresence peerEnabled now request with
          | error error =>
              have hstep : (after ops).step (.acquire peerEnabled now request) = after ops := by
                simp only [step, hresult]
              rw [hstep]
              refine ih.congr fun entry => granted_concat_of_not ?_
              rintro ⟨_, _, _, _, _, hop, hok, -⟩
              cases hop
              rw [hresult] at hok
              cases hok
          | ok result =>
              obtain ⟨generation, tables⟩ := result
              have hstep : ((after ops).step (.acquire peerEnabled now request)).tables = tables := by
                simp only [step, hresult]
              rw [hstep]
              refine (ih.acquire hresult).congr fun entry => granted_concat.trans (or_congr_right ?_)
              constructor
              · rintro ⟨_, _, _, _, _, hop, hok, heq⟩
                cases hop
                rw [hresult] at hok
                cases hok
                exact heq
              · intro heq
                exact ⟨peerEnabled, now, request, generation, tables, rfl, hresult, heq⟩
      | renew peerEnabled now request generation =>
          have hsame : ∀ entry, Granted entry (ops ++ [.renew peerEnabled now request generation]) ↔
              Granted entry ops := fun entry => granted_concat_of_not nofun
          cases hresult : (after ops).tables.renewPresence peerEnabled now request generation with
          | error error =>
              simp only [step, hresult]
              exact ih.congr hsame
          | ok tables =>
              simp only [step, hresult]
              exact (ih.renew hresult).congr hsame
      | release request generation =>
          have hsame : ∀ entry, Granted entry (ops ++ [.release request generation]) ↔
              Granted entry ops := fun entry => granted_concat_of_not nofun
          cases hresult : (after ops).tables.releasePresence request generation with
          | error error =>
              simp only [step, hresult]
              exact ih.congr hsame
          | ok tables =>
              simp only [step, hresult]
              exact (ih.release hresult).congr hsame
      | announce relay update =>
          have htables : ((after ops).step (.announce relay update)).tables = (after ops).tables := by
            unfold step
            dsimp only
            split <;> rfl
          rw [htables]
          exact ih.congr fun entry => granted_concat_of_not nofun
      | install rows started => exact ih.congr fun entry => granted_concat_of_not nofun

/-! ## The cache follows the store

`Tracks` relates the two at any moment: the cache knows granted leases only, and what it has reached without
holding it was released.
-/

/-- The cache knows granted leases only, and where it has reached the generation of a row it holds the
entry or has seen the release. -/
structure Tracks (granted : PresenceEntry → Prop) (released : PresenceKey → Int64 → Prop)
    (tables : PresenceTables) (cache : PresenceCache) : Prop where
  valid : cache.Valid
  entry : ∀ (key : PresenceKey) (entry : PresenceEntry), cache.entries[key]? = some entry →
    granted entry
  generation : ∀ (key : PresenceKey) (generation : Int64),
    cache.generations[key]? = some generation →
      ∃ entry, granted entry ∧ presenceKey entry = key ∧ entry.generation = generation
  current : ∀ (key : PresenceKey) (row : PresenceEntry), tables.rows[key]? = some row →
    cache.generations[key]? = some row.generation →
      cache.entries[key]? ≠ none ∨ released key row.generation

variable {released released' : PresenceKey → Int64 → Prop} {cache : PresenceCache}

theorem tracks_empty : Tracks granted released {} {} where
  valid := PresenceCache.valid_empty
  entry key entry h := by simp at h
  generation key generation h := by simp at h
  current key row h := by simp at h

theorem Tracks.mono (h : Tracks granted released tables cache)
    (hgranted : ∀ entry, granted entry → granted' entry)
    (hreleased : ∀ key generation, released key generation → released' key generation) :
    Tracks granted' released' tables cache := by
  refine ⟨h.valid, fun key entry hentry => hgranted _ (h.entry key entry hentry), ?_, ?_⟩
  · intro key generation hgeneration
    obtain ⟨entry, hentry, hkey, hgen⟩ := h.generation key generation hgeneration
    exact ⟨entry, hgranted _ hentry, hkey, hgen⟩
  · intro key row hrow hgeneration
    exact (h.current key row hrow hgeneration).imp_right (hreleased key _)

/-- The store may lose rows, renew them, or bring up rows the cache knows nothing of. -/
theorem Tracks.store (h : Tracks granted released tables cache)
    (hrows : ∀ (key : PresenceKey) (row : PresenceEntry), next.rows[key]? = some row →
      (∃ row', tables.rows[key]? = some row' ∧ row'.generation = row.generation) ∨
        cache.generations[key]? ≠ some row.generation) :
    Tracks granted released next cache := by
  refine ⟨h.valid, h.entry, h.generation, fun key row hrow hgeneration => ?_⟩
  rcases hrows key row hrow with ⟨row', hrow', hsame⟩ | hunknown
  · rw [← hsame] at hgeneration ⊢
    exact h.current key row' hrow' hgeneration
  · exact absurd hgeneration hunknown

/-- The cache never runs ahead of a row. -/
theorem Tracks.behind (h : Tracks granted released tables cache) (hstore : Granting granted tables)
    {row : PresenceEntry} (hrow : tables.rows[presenceKey row]? = some row)
    (hreached : cache.Reached (presenceKey row) row.generation) :
    cache.generations[presenceKey row]? = some row.generation := by
  obtain ⟨current, hcurrent, hle⟩ := hreached
  obtain ⟨entry, hentry, hkey, rfl⟩ := h.generation _ current hcurrent
  have hlatest := hstore.latest entry row hentry (by rw [hkey]; exact hrow)
  have hsame : entry.generation = row.generation := by grind
  rw [hcurrent, hsame]

/-- An entry of the generation of a granted lease is that lease. -/
theorem Tracks.identity (h : Tracks granted released tables cache) (hstore : Granting granted tables)
    {row entry : PresenceEntry} (hgranted : granted row)
    (hentry : cache.entries[presenceKey row]? = some entry)
    (hgeneration : entry.generation = row.generation) : entry.identity = row.identity :=
  hstore.unique entry row (h.entry _ entry hentry) hgranted
    (peerId_of_presenceKey (h.valid.keyed _ entry hentry).1).symm hgeneration

theorem Tracks.observe (h : Tracks granted released tables cache) {relay : RelayId}
    {update : PresenceAnnouncement} {advanced : Bool} {after : PresenceCache}
    (hgranted : granted update.entry)
    (hreleased : update.released = true →
      released (presenceKey update.entry) update.entry.generation)
    (hobserved : cache.observe relay update = .ok (advanced, after)) :
    Tracks granted released tables after := by
  refine ⟨h.valid.observe hobserved, ?_, ?_, ?_⟩
  all_goals rcases PresenceCache.observe_cases hobserved with ⟨rfl, -⟩ | ⟨rfl, -⟩
  · exact h.entry
  · intro key entry hentry
    rw [PresenceCache.record_entries] at hentry
    split at hentry
    · split at hentry
      · cases hentry
      · cases hentry
        exact hgranted
    · exact h.entry key entry hentry
  · exact h.generation
  · intro key generation hgeneration
    rw [PresenceCache.record_generations] at hgeneration
    split at hgeneration
    · rename_i hkey
      cases hgeneration
      exact ⟨update.entry, hgranted, hkey, rfl⟩
    · exact h.generation key generation hgeneration
  · exact h.current
  · intro key row hrow hgeneration
    rw [PresenceCache.record_generations] at hgeneration
    rw [PresenceCache.record_entries]
    split at hgeneration
    · rename_i hkey
      subst hkey
      rw [if_pos rfl]
      rw [← Option.some.inj hgeneration]
      cases hupdate : update.released with
      | true => exact .inr (hreleased hupdate)
      | false => exact .inl (by simp)
    · rename_i hkey
      rw [if_neg hkey]
      exact h.current key row hrow hgeneration

/-- A row of a snapshot that the cache does not know better is observed without an error. -/
theorem Tracks.observeLocal_ok (h : Tracks granted released tables cache)
    (hstore : Granting granted tables) {row : PresenceEntry} {started : Nat} (hgranted : granted row)
    (hcurrent : cache.outdated started row = false) :
    ∃ advanced after, cache.observeLocal row = .ok (advanced, after) := by
  refine PresenceCache.observe_accepts rfl (hstore.counter row hgranted).1 fun held hheld => ?_
  by_cases hgeneration : row.generation = held.generation
  · have hidentity := h.identity hstore hgranted hheld hgeneration.symm
    simp only [PresenceEntry.identity, Prod.mk.injEq] at hidentity
    obtain ⟨-, hrelay, hattachment, hrole, -⟩ := hidentity
    have hdeadline : ¬ row.leaseDeadline.unixTimestamp < held.leaseDeadline.unixTimestamp := by
      intro hless
      have hlt : row.leaseDeadline.lt held.leaseDeadline = true := by
        rw [OffsetDateTime.lt, decide_eq_true hless, Bool.true_or]
      have hheld' : cache.entries[presenceKey row]? = some held := hheld
      rw [PresenceCache.outdated, hheld', Option.any_some, hlt, hgeneration] at hcurrent
      simp at hcurrent
    simp [PresenceCache.conflicts, hrelay, hattachment, hrole, hdeadline]
  · simp [PresenceCache.conflicts, hgeneration]

/-- Passing a row over means that its generation is known. -/
theorem Tracks.reached_of_outdated (h : Tracks granted released tables cache) {row : PresenceEntry}
    {started : Nat} (houtdated : cache.outdated started row = true) :
    cache.Reached (presenceKey row) row.generation := by
  unfold PresenceCache.outdated at houtdated
  rcases Bool.or_eq_true_iff.mp houtdated with htouched | hheld
  · obtain ⟨current, hcurrent, hle⟩ := PresenceCache.any_eq_true (Bool.and_eq_true_iff.mp htouched).2
    exact ⟨current, hcurrent, of_decide_eq_true hle⟩
  · obtain ⟨held, hentry, hsame⟩ := PresenceCache.any_eq_true hheld
    have hgeneration := of_decide_eq_true (Bool.and_eq_true_iff.mp hsame).1
    refine ⟨held.generation, (h.valid.keyed _ held hentry).2, ?_⟩
    rw [hgeneration]
    exact Int64.le_refl _

/-- The loop over granted rows ends without an error, and has reached each of them. -/
theorem Tracks.observeRows (hstore : Granting granted tables) {started : Nat}
    {rows : List PresenceEntry} (hrows : ∀ row ∈ rows, granted row)
    (h : Tracks granted released tables cache) :
    (cache.observeRows started rows).1 = .ok () ∧
      Tracks granted released tables (cache.observeRows started rows).2 ∧
      ∀ row ∈ rows,
        (cache.observeRows started rows).2.Reached (presenceKey row) row.generation := by
  induction rows generalizing cache with
  | nil => exact ⟨rfl, h, nofun⟩
  | cons row rows ih =>
      obtain ⟨hrow, hrest⟩ := List.forall_mem_cons.mp hrows
      have hkeep : ∀ {cache : PresenceCache}, cache.Reached (presenceKey row) row.generation →
          (cache.observeRows started rows).2.Reached (presenceKey row) row.generation := fun hreached =>
        PresenceCache.observeRows_keeps
          (I := fun cache => cache.Reached (presenceKey row) row.generation)
          (fun _ _ _ _ h hobserved => h.observe hobserved) hreached
      cases houtdated : cache.outdated started row with
      | true =>
          have hloop : cache.observeRows started (row :: rows) = cache.observeRows started rows := by
            rw [PresenceCache.observeRows, if_pos houtdated]
          rw [hloop]
          obtain ⟨hok, htracks, hreached⟩ := ih hrest h
          exact ⟨hok, htracks, List.forall_mem_cons.mpr
            ⟨hkeep (h.reached_of_outdated houtdated), hreached⟩⟩
      | false =>
          obtain ⟨advanced, after, hobserved⟩ := h.observeLocal_ok hstore hrow houtdated
          have hloop : cache.observeRows started (row :: rows) = after.observeRows started rows := by
            rw [PresenceCache.observeRows, if_neg (by rw [houtdated]; nofun), hobserved]
          rw [hloop]
          obtain ⟨hok, htracks, hreached⟩ := ih hrest (h.observe hrow (by nofun) hobserved)
          exact ⟨hok, htracks, List.forall_mem_cons.mpr
            ⟨hkeep (PresenceCache.reached_observe hobserved), hreached⟩⟩

/-- Dropping dead entries only, the cache stays on the track of the store. -/
theorem Tracks.retain {s : PresenceState} {rows : List PresenceEntry} {started : Nat}
    (h : Tracks granted released s.tables s.cache) (hdrops : DropsDeadOnly s (.install rows started)) :
    Tracks granted released s.tables (s.cache.retain rows started) := by
  refine ⟨h.valid.retain, fun key entry hentry => h.entry key entry
    (PresenceCache.of_retain_entries hentry), h.generation, fun key row hrow hgeneration => ?_⟩
  rcases h.current key row hrow hgeneration with hheld | hreleased
  · refine .inl fun hdropped => ?_
    obtain ⟨entry, hentry⟩ := Option.ne_none_iff_exists'.mp hheld
    have hsame := (h.valid.keyed key entry hentry).2
    have hgeneration' : s.cache.generations[key]? = some row.generation := hgeneration
    rw [hgeneration'] at hsame
    exact hdrops key entry row hentry hdropped hrow (Option.some.inj hsame)
  · exact .inr hreleased

/-- A snapshot of granted rows is installed. -/
theorem Tracks.install {s : PresenceState} {rows : List PresenceEntry} {started : Nat}
    (h : Tracks granted released s.tables s.cache) (hstore : Granting granted s.tables)
    (hrows : ∀ row ∈ rows, granted row) (hdrops : DropsDeadOnly s (.install rows started)) :
    (s.cache.installSnapshot rows started).1 = .ok () ∧
      Tracks granted released s.tables (s.cache.installSnapshot rows started).2 ∧
      ∀ row ∈ rows,
        (s.cache.installSnapshot rows started).2.Reached (presenceKey row) row.generation :=
  (h.retain hdrops).observeRows hstore hrows

/-! ## Runs -/

theorem released_concat {key : PresenceKey} {ops : List Op} {op : Op} :
    Released key generation (ops ++ [op]) ↔
      Released key generation ops ∨ ObservesRelease key generation (after ops) op :=
  happened_concat

theorem Granted.append {entry : PresenceEntry} {ops : List Op} (h : Granted entry ops)
    (more : List Op) : Granted entry (ops ++ more) := by
  obtain ⟨before, op, rest, rfl, hgrants⟩ := h
  exact ⟨before, op, rest ++ more, by simp, hgrants⟩

/-- The rows of a query were granted. -/
theorem granted_of_queried {rows : List PresenceEntry} {started : Nat} {ops : List Op}
    (h : Queried rows started ops) : ∀ row ∈ rows, Granted row ops := by
  obtain ⟨early, middle, late, clock, rfl, -, rfl⟩ := h
  intro row hmem
  obtain ⟨⟨key, hrow⟩, -⟩ := PresenceTables.mem_snapshot.mp hmem
  exact ((granting_after (early ++ middle)).row key row hrow).2.append late

theorem step_tracks {ops : List Op} {op : Op}
    (h : Tracks (Granted · ops) (Released · · ops) (after ops).tables (after ops).cache)
    (honest : Honest ops op) (hdrops : DropsDeadOnly (after ops) op) :
    Tracks (Granted · (ops ++ [op])) (Released · · (ops ++ [op])) (after (ops ++ [op])).tables
      (after (ops ++ [op])).cache := by
  have hmono : Tracks (Granted · (ops ++ [op])) (Released · · (ops ++ [op])) (after ops).tables
      (after ops).cache :=
    h.mono (fun entry hentry => hentry.append [op]) fun key generation hreleased =>
      released_concat.mpr (.inl hreleased)
  have hstore := granting_after ops
  rw [after_concat]
  cases op with
  | acquire peerEnabled now request =>
      cases hresult : (after ops).tables.acquirePresence peerEnabled now request with
      | error error =>
          simp only [step, hresult]
          exact hmono
      | ok result =>
          obtain ⟨generation, tables⟩ := result
          simp only [step, hresult]
          obtain ⟨hallocated, rfl⟩ := PresenceTables.acquirePresence_ok hresult
          refine hmono.store fun key row hrow => ?_
          simp only [ExtTreeMap.getElem?_insert, LawfulEqOrd.compare_eq_iff_eq] at hrow
          split at hrow
          · rename_i hkey
            cases hrow
            -- the generation is above every one the cache can know
            refine .inr fun hknown => ?_
            obtain ⟨entry, hentry, hsame, hgeneration⟩ := h.generation key _ hknown
            obtain ⟨-, counter, hcounter, hle⟩ := hstore.counter entry hentry
            have hpeer : entry.peerId = request.peerId :=
              peerId_of_presenceKey (hsame.trans hkey.symm)
            rw [hpeer] at hcounter
            have hless := (PresenceTables.allocate_spec hallocated).2 counter hcounter
            have hgeneration' : entry.generation = generation := hgeneration
            grind
          · exact .inl ⟨row, hrow, rfl⟩
  | renew peerEnabled now request generation =>
      cases hresult : (after ops).tables.renewPresence peerEnabled now request generation with
      | error error =>
          simp only [step, hresult]
          exact hmono
      | ok tables =>
          simp only [step, hresult]
          obtain ⟨hholds, rfl⟩ := PresenceTables.renewPresence_ok hresult
          obtain ⟨row, hrow, -, -, hgeneration⟩ := PresenceTables.holds_iff.mp hholds
          refine hmono.store fun key row' hrow' => .inl ?_
          simp only [ExtTreeMap.getElem?_insert, LawfulEqOrd.compare_eq_iff_eq] at hrow'
          split at hrow'
          · rename_i hkey
            cases hrow'
            exact ⟨row, hkey ▸ hrow, hgeneration⟩
          · exact ⟨row', hrow', rfl⟩
  | release request generation =>
      cases hresult : (after ops).tables.releasePresence request generation with
      | error error =>
          simp only [step, hresult]
          exact hmono
      | ok tables =>
          simp only [step, hresult]
          refine hmono.store fun key row hrow => .inl ?_
          rw [PresenceTables.releasePresence_ok hresult] at hrow
          simp only [ExtTreeMap.getElem?_erase] at hrow
          split at hrow
          · cases hrow
          · exact ⟨row, hrow, rfl⟩
  | announce relay update =>
      cases hresult : (after ops).cache.observe relay update with
      | error error =>
          simp only [step, hresult]
          exact hmono
      | ok result =>
          obtain ⟨advanced, cache⟩ := result
          simp only [step, hresult]
          exact hmono.observe (Granted.append honest _) (fun hreleased => released_concat.mpr
            (.inr ⟨relay, update, _, rfl, hreleased, rfl, rfl, hresult⟩)) hresult
  | install rows started =>
      have hgranting : Granting (Granted · (ops ++ [.install rows started])) (after ops).tables := by
        refine hstore.congr fun entry => granted_concat_of_not ?_
        rintro ⟨_, _, _, _, _, hop, -⟩
        cases hop
      exact (hmono.install hgranting
        (fun row hmem => (granted_of_queried honest row hmem).append _) hdrops).2.1

theorem tracks_after {ops : List Op}
    (h : Along (fun before op => Honest before op ∧ DropsDeadOnly (after before) op) ops) :
    Tracks (Granted · ops) (Released · · ops) (after ops).tables (after ops).cache := by
  refine along_history (I := fun ops => Tracks (Granted · ops) (Released · · ops)
    (after ops).tables (after ops).cache) tracks_empty ?_ h
  intro before op hop ih
  exact step_tracks ih hop.1 hop.2

/-- What every operation of the cache does to a valid cache, a step does. -/
theorem step_cache {I : PresenceCache → Prop} {s : PresenceState}
    (hobserve : ∀ relay update advanced next, s.cache.observe relay update = .ok (advanced, next) →
      I next)
    (hinstall : ∀ rows started, I (s.cache.installSnapshot rows started).2) (h : I s.cache) (op : Op) :
    I (s.step op).cache := by
  cases op with
  | acquire peerEnabled now request =>
      unfold step
      dsimp only
      split <;> exact h
  | renew peerEnabled now request generation =>
      unfold step
      dsimp only
      split <;> exact h
  | release request generation =>
      unfold step
      dsimp only
      split <;> exact h
  | announce relay update =>
      unfold step
      dsimp only
      split
      · rename_i advanced cache hobserved
        exact hobserve relay update advanced cache hobserved
      · exact h
  | install rows started => exact hinstall rows started

theorem valid_after (ops : List Op) : (after ops).cache.Valid :=
  exec_invariant (I := fun s : PresenceState => s.cache.Valid) PresenceCache.valid_empty
    (fun _ op h => step_cache (fun _ _ _ _ hobserved => h.observe hobserved)
      (fun _ _ => h.installSnapshot) h op) ops

theorem reached_append {ops : List Op} {key : PresenceKey}
    (h : (after ops).cache.Reached key generation) (more : List Op) :
    (after (ops ++ more)).cache.Reached key generation := by
  rw [after, exec_append]
  exact exec_invariant (I := fun s : PresenceState => s.cache.Reached key generation) h
    (fun _ op h => step_cache (I := fun cache => cache.Reached key generation)
      (fun _ _ _ _ hobserved => h.observe hobserved) (fun _ _ => h.installSnapshot) h op) more

theorem fenced_of_released {ops : List Op} {key : PresenceKey} (h : Released key generation ops) :
    (after ops).cache.Fenced key generation := by
  induction ops using List.reverseRecOn with
  | nil => exact absurd h happened_nil
  | append_singleton ops op ih =>
      have hvalid := valid_after ops
      rw [after_concat]
      rcases released_concat.mp h with hbefore | ⟨relay, update, result, rfl, hreleased, rfl, rfl, hok⟩
      · have hfenced := ih hbefore
        exact step_cache (I := fun cache => cache.Fenced key generation)
          (fun _ _ _ _ hobserved => hfenced.observe hvalid hobserved)
          (fun _ _ => hfenced.installSnapshot hvalid) hfenced op
      · obtain ⟨advanced, cache⟩ := result
        simp only [step, hok]
        exact PresenceCache.fenced_observe hvalid hreleased hok

/-! ## The result -/

/-- **The cache converges.** In every run whose snapshots drop no entry of a lease the store still has
a row of, generations never decrease, released entries stay away, and a quiet snapshot leaves an entry
for every row of it that was not released. -/
theorem converges_of_dropsDeadOnly (ops : List Op)
    (h : Along (fun before op => Honest before op ∧ DropsDeadOnly (after before) op) ops) :
    Converges ops := by
  refine ⟨?_, ?_, ?_⟩
  · rintro before more rfl key generation hgeneration
    exact reached_append ⟨generation, hgeneration, Int64.le_refl _⟩ more
  · intro key generation hreleased
    exact (fenced_of_released hreleased).2
  · rintro before clock rfl
    obtain ⟨hbefore, honest, hdrops⟩ := along_concat.mp h
    have hstore := granting_after before
    have hgranted : ∀ row ∈ (after before).tables.snapshot clock, Granted row before :=
      fun row hmem => by
        obtain ⟨⟨key, hrow⟩, -⟩ := PresenceTables.mem_snapshot.mp hmem
        exact (hstore.row key row hrow).2
    obtain ⟨hok, htracks, hreached⟩ := (tracks_after hbefore).install hstore hgranted hdrops
    refine ⟨hok, fun row hmem hlive => ?_⟩
    obtain ⟨⟨key, hrow⟩, -⟩ := PresenceTables.mem_snapshot.mp hmem
    obtain ⟨rfl, hrowGranted⟩ := hstore.row key row hrow
    have hgeneration := htracks.behind hstore hrow (hreached row hmem)
    rw [after_concat]
    rcases htracks.current _ row hrow hgeneration with hheld | hreleased
    · obtain ⟨entry, hentry⟩ := Option.ne_none_iff_exists'.mp hheld
      have hsame := (htracks.valid.keyed _ entry hentry).2
      rw [hgeneration] at hsame
      exact ⟨entry, hentry, htracks.identity hstore hrowGranted hentry (Option.some.inj hsame).symm⟩
    · exact absurd hreleased hlive

section Examples

def peer : PeerId := ⟨0x00000000000040008000000000000002#128, Types.random_two⟩
def relay : RelayId := ⟨0x00000000000040008000000000000004#128, Types.random_four⟩
def attachment : Id := ⟨0x00000000000040008000000000000005#128, Types.random_five⟩

def second (timestamp : Int64)
    (h : -377705116800 ≤ timestamp.toInt ∧ timestamp.toInt ≤ 253402300799) : OffsetDateTime :=
  ⟨timestamp, 0, h⟩

def lease (deadline : OffsetDateTime) : PresenceLease where
  peerId := peer
  relayId := relay
  attachmentId := attachment
  role := .primary
  leaseDeadline := deadline

def zero : OffsetDateTime := second 0 (by decide)
def ten : OffsetDateTime := second 10 (by decide)
def twenty : OffsetDateTime := second 20 (by decide)
def thirty : OffsetDateTime := second 30 (by decide)

/-- A lease of ten seconds is acquired and announced. -/
def attached : List Op :=
  [.acquire true zero (lease ten),
    .announce relay { entry := (lease ten).row 1, released := false }]

/-- The database is out of reach for a while: the lease lapses, a snapshot is taken, the lease is
renewed. -/
def lapsed : List Op := attached ++ [.install [] 1, .renew true twenty (lease thirty) 1]

/-- A snapshot during which nothing else happens. -/
def quietSnapshot (ops : List Op) (clock : OffsetDateTime) : Op :=
  .install ((after ops).tables.snapshot clock) (after ops).cache.revision

theorem queried_quiet (ops : List Op) (clock : OffsetDateTime) :
    Honest ops (quietSnapshot ops clock) :=
  ⟨ops, [], [], clock, by simp, rfl, by simp⟩

theorem granted_attached : Granted ((lease ten).row 1) [.acquire true zero (lease ten)] :=
  ⟨[], _, [], rfl, true, zero, lease ten, 1, _, rfl, rfl, rfl⟩

theorem attached_cache : (after attached).cache =
    ({} : PresenceCache).record { entry := (lease ten).row 1, released := false } := rfl

theorem snapshot_attached : (after attached).tables.snapshot zero = [(lease ten).row 1] := by
  decide +kernel

/-- A quiet snapshot while the lease is live. -/
theorem live_lease_converges : Converges (attached ++ [quietSnapshot attached zero]) := by
  apply converges_of_dropsDeadOnly
  refine along_concat.mpr ⟨along_concat.mpr ⟨along_concat.mpr ⟨along_nil, trivial, trivial⟩,
    granted_attached, trivial⟩, queried_quiet attached zero, ?_⟩
  intro key entry row hentry hdropped
  rw [attached_cache, PresenceCache.record_entries] at hentry
  split at hentry
  · rename_i hkey
    subst hkey
    rw [attached_cache, PresenceCache.retain_entries, PresenceCache.record_entries, if_pos rfl,
      snapshot_attached] at hdropped
    simp at hdropped
  · simp at hentry

theorem lapsed_not_released {key : PresenceKey} : ¬ Released key 1 lapsed := by
  have hpresent : lapsed = [] ++ [.acquire true zero (lease ten)] ++
      [.announce relay { entry := (lease ten).row 1, released := false }] ++ [.install [] 1] ++
      [.renew true twenty (lease thirty) 1] := rfl
  rw [hpresent]
  simp only [released_concat]
  rintro ((((hnil | ⟨_, _, _, hop, -⟩) | ⟨_, _, _, hop, hreleased, -⟩) | ⟨_, _, _, hop, -⟩) |
    ⟨_, _, _, hop, -⟩)
  · exact happened_nil hnil
  · cases hop
  · cases hop
    cases hreleased
  · cases hop
  · cases hop

/-- Nobody has released the renewed lease, and a quiet snapshot lists it, but its entry is gone. -/
theorem renewed_lease_stays_lost :
    Along Honest (lapsed ++ [quietSnapshot lapsed twenty]) ∧
      ¬ Converges (lapsed ++ [quietSnapshot lapsed twenty]) := by
  constructor
  · have hempty : Queried [] 1 attached :=
      ⟨attached, [], [], ten, by simp, by decide +kernel, by decide +kernel⟩
    exact along_concat.mpr ⟨along_concat.mpr ⟨along_concat.mpr ⟨along_concat.mpr ⟨along_concat.mpr
      ⟨along_nil, trivial⟩, granted_attached⟩, hempty⟩, trivial⟩, queried_quiet lapsed twenty⟩
  · intro h
    have hrows : (after lapsed).tables.snapshot twenty = [(lease thirty).row 1] := by decide +kernel
    obtain ⟨entry, hentry, -⟩ := (h.complete lapsed twenty rfl).2 ((lease thirty).row 1)
      (by rw [hrows]; exact List.mem_singleton_self _) lapsed_not_released
    have hgone : (after (lapsed ++ [quietSnapshot lapsed twenty])).cache.entries[
        presenceKey ((lease thirty).row 1)]? = none := by
      decide +kernel
    rw [hgone] at hentry
    cases hentry

end Examples

end PresenceState

end Peerward.Relay
