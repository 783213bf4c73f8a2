import Peerward.Lib.Run
import Peerward.Store.Outbox

/-!
# What readers of the outbox miss

A reader is past an event for good once its position is. So nothing is missed as long as no position
passes an event that is still uncommitted, and positions only move to committed sequences: everything
hinges on transactions committing in the order of their sequences. The row lock of `event_stream_state`
does not see to that, since the sequences are taken before it.
-/

namespace Peerward.Store

open Peerward.Lib
open Peerward.Types (MeshId)

namespace Outbox

/-- The state of a run from an empty outbox. -/
abbrev after (ops : List Op) : Outbox := exec step {} ops

theorem after_concat (ops : List Op) (op : Op) : after (ops ++ [op]) = (after ops).step op :=
  exec_concat ..

/-- The mark of the outbox. -/
abbrev highWater (s : Outbox) : Nat := s.stream.highWaterSequence

/-! ## What should hold

Four parts: the mark grows, it has reached what is committed, no position has passed what is not, and what
is committed is read. The first three are about a state; the last compares moments of a run.
-/

/-- The polls of a reader in a run. -/
def polls (id : Nat) (ops : List Op) : Nat := ops.countP fun
  | .poll id' => id' = id
  | _ => false

structure NothingMissed (ops : List Op) : Prop where
  /-- The mark never decreases. -/
  monotone : ∀ before more, ops = before ++ more → (after before).highWater ≤ (after ops).highWater
  /-- The mark has reached everything committed. -/
  reached : ∀ event ∈ (after ops).committed, event.sequence ≤ (after ops).highWater
  /-- No position has passed what is still uncommitted. -/
  notPassed : ∀ id writer, (after ops).writers id = some writer → ∀ event ∈ writer.inserted,
    (∀ id' reader, (after ops).readers id' = some reader → reader.position < event.sequence) ∧
      ∀ id' relay, (after ops).relays id' = some relay → relay.eventSequence < event.sequence
  /-- With enough polls a reader returns every event committed after its start, or that was committed
  when it was opened after an earlier event. -/
  polled : ∀ before more, ops = before ++ more →
    ∀ id reader, (after before).readers id = some reader →
    ∀ event ∈ (after before).committed, event ∉ reader.before ∨ reader.start < event.sequence →
      event.sequence ≤ polls id more →
      ∃ reader', (after ops).readers id = some reader' ∧ event ∈ reader'.returned
  /-- A Relay whose catch-up ends has loaded a snapshot with every event of its mesh that was committed
  when the catch-up started. -/
  covered : ∀ before id, ops = before ++ [.finish id] →
    ∀ catchUp relay, (after before).catchUps id = some catchUp → catchUp.stage.done = true →
      (after before).relays catchUp.relay = some relay →
    ∀ event ∈ catchUp.seen, concerns relay.meshId event = true →
      ∃ relay', (after ops).relays catchUp.relay = some relay' ∧ event ∈ relay'.covered

/-- A transaction that commits has no larger sequence than one that is still open. -/
def CommitsInOrder (s : Outbox) : Op → Prop
  | .commit id => ∀ writer id' writer', s.writers id = some writer → id' ≠ id →
      s.writers id' = some writer' → ∀ event ∈ writer.inserted, ∀ event' ∈ writer'.inserted,
        event.sequence < event'.sequence
  | _ => True

theorem update_cases {α : Type} {f : Nat → Option α} {id id' : Nat} {value : Option α} {a : α}
    (h : Function.update f id value id' = some a) :
    (id' = id ∧ value = some a) ∨ (id' ≠ id ∧ f id' = some a) := by
  by_cases hid : id' = id
  · subst hid
    rw [Function.update_self] at h
    exact .inl ⟨rfl, h⟩
  · rw [Function.update_of_ne hid] at h
    exact .inr ⟨hid, h⟩

/-! ## Growth

If transactions commit in the order of their sequences, what a commit adds is above the mark and above every
position. `Ordered` is the invariant that says so.
-/

/-- What is newly committed is above the mark. -/
structure Grows (s next : Outbox) : Prop where
  kept : ∀ event ∈ s.committed, event ∈ next.committed
  new : ∀ event ∈ next.committed, event ∈ s.committed ∨ s.highWater < event.sequence
  mark : s.highWater ≤ next.highWater

theorem Grows.of_eq {s next : Outbox} (hcommitted : next.committed = s.committed)
    (hstream : next.stream = s.stream) : Grows s next := by
  refine ⟨fun event h => ?_, fun event h => ?_, ?_⟩
  · rw [hcommitted]
    exact h
  · rw [hcommitted] at h
    exact .inl h
  · rw [highWater, highWater, hstream]

structure WritersOk (s : Outbox) : Prop where
  committed : ∀ event ∈ s.committed, 0 < event.sequence ∧ event.sequence ≤ s.highWater
  unique : ∀ event ∈ s.committed, ∀ event' ∈ s.committed, event.sequence = event'.sequence →
    event = event'
  pending : ∀ id writer, s.writers id = some writer → ∀ event ∈ writer.inserted,
    s.highWater < event.sequence ∧ event.sequence < s.nextSequence
  fresh : s.highWater < s.nextSequence
  sorted : ∀ id writer, s.writers id = some writer →
    writer.inserted.Pairwise (·.sequence < ·.sequence)
  last : ∀ id writer, s.writers id = some writer →
    writer.unmarked.or writer.marked = writer.inserted.getLast?

structure ReaderOk (s : Outbox) (reader : Reader) : Prop where
  start : reader.start ≤ reader.position
  position : reader.position ≤ s.highWater
  late : ∀ event ∈ s.committed, event ∈ reader.before ∨ reader.start < event.sequence
  returned : ∀ event ∈ s.committed, reader.start < event.sequence →
    event ∈ reader.returned ∨ reader.position < event.sequence

/-- The events of its mesh up to a sequence are covered. -/
def CoveredUpTo (s : Outbox) (relay : Relay) (sequence : Nat) : Prop :=
  sequence ≤ s.highWater ∧ ∀ event ∈ s.committed, concerns relay.meshId event = true →
    event.sequence ≤ sequence → event ∈ relay.covered

structure CatchUpOk (s : Outbox) (relay : Relay) (catchUp : CatchUp) : Prop where
  seen : ∀ event ∈ catchUp.seen, event ∈ s.committed
  started : ∀ sequence, catchUp.stage = .started sequence → CoveredUpTo s relay sequence
  stateRead : ∀ sequence mark gap, catchUp.stage = .stateRead sequence mark gap →
    CoveredUpTo s relay sequence ∧ mark ≤ s.highWater ∧ ∀ event ∈ catchUp.seen, event.sequence ≤ mark
  quiet : ∀ mark, catchUp.stage = .quiet mark →
    CoveredUpTo s relay mark ∧ ∀ event ∈ catchUp.seen, event.sequence ≤ mark
  snapshot : ∀ rows mark, catchUp.stage = .snapshot rows mark →
    mark ≤ s.highWater ∧ (∀ event ∈ s.committed, event.sequence ≤ mark → event ∈ rows) ∧
      ∀ event ∈ catchUp.seen, event ∈ rows

/-- The invariant of runs that commit in order. -/
structure Ordered (s : Outbox) : Prop where
  writers : WritersOk s
  readers : ∀ id reader, s.readers id = some reader → ReaderOk s reader
  relays : ∀ id relay, s.relays id = some relay → CoveredUpTo s relay relay.eventSequence
  catchUps : ∀ id catchUp, s.catchUps id = some catchUp →
    ∃ relay, s.relays catchUp.relay = some relay ∧ CatchUpOk s relay catchUp

variable {s next : Outbox} {reader : Reader} {relay : Relay} {catchUp : CatchUp}

theorem ReaderOk.grow (h : ReaderOk s reader) (hgrows : Grows s next) : ReaderOk next reader := by
  refine ⟨h.start, h.position.trans hgrows.mark, ?_, ?_⟩
  · intro event hmem
    rcases hgrows.new event hmem with hold | hnew
    · exact h.late event hold
    · exact .inr (Nat.lt_of_le_of_lt (h.start.trans h.position) hnew)
  · intro event hmem hstart
    rcases hgrows.new event hmem with hold | hnew
    · exact h.returned event hold hstart
    · exact .inr (Nat.lt_of_le_of_lt h.position hnew)

theorem CoveredUpTo.grow {sequence : Nat} (h : CoveredUpTo s relay sequence)
    (hgrows : Grows s next) : CoveredUpTo next relay sequence := by
  refine ⟨h.1.trans hgrows.mark, fun event hmem hconcerns hle => ?_⟩
  rcases hgrows.new event hmem with hold | hnew
  · exact h.2 event hold hconcerns hle
  · exact absurd (Nat.lt_of_lt_of_le hnew hle) (Nat.not_lt.mpr h.1)

theorem CatchUpOk.grow (h : CatchUpOk s relay catchUp) (hgrows : Grows s next) :
    CatchUpOk next relay catchUp := by
  refine ⟨fun event hmem => hgrows.kept event (h.seen event hmem), ?_, ?_, ?_, ?_⟩
  · intro sequence hstage
    exact (h.started sequence hstage).grow hgrows
  · intro sequence mark gap hstage
    obtain ⟨hcovered, hmark, hseen⟩ := h.stateRead sequence mark gap hstage
    exact ⟨hcovered.grow hgrows, hmark.trans hgrows.mark, hseen⟩
  · intro mark hstage
    exact ⟨(h.quiet mark hstage).1.grow hgrows, (h.quiet mark hstage).2⟩
  · intro rows mark hstage
    obtain ⟨hmark, hrows, hseen⟩ := h.snapshot rows mark hstage
    refine ⟨hmark.trans hgrows.mark, fun event hmem hle => ?_, hseen⟩
    rcases hgrows.new event hmem with hold | hnew
    · exact hrows event hold hle
    · omega

/-- A Relay that has covered more. -/
theorem CatchUpOk.of_covered {relay' : Relay} (h : CatchUpOk s relay catchUp)
    (hmesh : relay'.meshId = relay.meshId) (hcovered : ∀ event ∈ relay.covered, event ∈ relay'.covered) :
    CatchUpOk s relay' catchUp := by
  have hupTo : ∀ sequence, CoveredUpTo s relay sequence → CoveredUpTo s relay' sequence := by
    intro sequence hsequence
    refine ⟨hsequence.1, fun event hmem hconcerns hle => ?_⟩
    rw [hmesh] at hconcerns
    exact hcovered event (hsequence.2 event hmem hconcerns hle)
  refine ⟨h.seen, fun sequence hstage => hupTo _ (h.started sequence hstage), ?_, ?_, h.snapshot⟩
  · intro sequence mark gap hstage
    exact ⟨hupTo _ (h.stateRead sequence mark gap hstage).1, (h.stateRead sequence mark gap hstage).2⟩
  · intro mark hstage
    exact ⟨hupTo _ (h.quiet mark hstage).1, (h.quiet mark hstage).2⟩

theorem ordered_empty : Ordered {} := by
  exact ⟨⟨nofun, nofun, nofun, Nat.zero_lt_one, nofun, nofun⟩, nofun, nofun, nofun⟩

/-- A step of a writer leaves the readers and the Relays, and lets the outbox grow. -/
theorem Ordered.write (h : Ordered s) (hwriters : WritersOk next) (hgrows : Grows s next)
    (hreaders : next.readers = s.readers) (hrelays : next.relays = s.relays)
    (hcatchUps : next.catchUps = s.catchUps) : Ordered next := by
  refine ⟨hwriters, fun id reader hreader => ?_, fun id relay hrelay => ?_,
    fun id catchUp hcatchUp => ?_⟩
  · rw [hreaders] at hreader
    exact (h.readers id reader hreader).grow hgrows
  · rw [hrelays] at hrelay
    exact (h.relays id relay hrelay).grow hgrows
  · rw [hcatchUps] at hcatchUp
    obtain ⟨relay, hrelay, hok⟩ := h.catchUps id catchUp hcatchUp
    exact ⟨relay, hrelays ▸ hrelay, hok.grow hgrows⟩

/-! ## Writers

A step of a writer concerns the readers only where it commits. Between its insert and its commit a
transaction's sequences are above the mark, which is what has to be kept.
-/

/-- One more or one less writer, and everything else as it was. -/
theorem WritersOk.update {id : Nat} (h : WritersOk s) (hcommitted : next.committed = s.committed)
    (hstream : next.stream = s.stream) (hnext : s.nextSequence ≤ next.nextSequence)
    {writer : Option Writer} (hwriters : next.writers = Function.update s.writers id writer)
    (hnew : ∀ w, writer = some w →
      (∀ event ∈ w.inserted, s.highWater < event.sequence ∧ event.sequence < next.nextSequence) ∧
      w.inserted.Pairwise (·.sequence < ·.sequence) ∧
      w.unmarked.or w.marked = w.inserted.getLast?) : WritersOk next := by
  have hmark : next.highWater = s.highWater := by rw [highWater, highWater, hstream]
  have hcases : ∀ id' w, next.writers id' = some w → writer = some w ∨ s.writers id' = some w := by
    intro id' w hw
    rw [hwriters] at hw
    exact (update_cases hw).imp And.right And.right
  refine ⟨?_, ?_, ?_, ?_, ?_, ?_⟩
  · rw [hcommitted, hmark]
    exact h.committed
  · rw [hcommitted]
    exact h.unique
  · intro id' w hw event hmem
    rw [hmark]
    rcases hcases id' w hw with hsame | hold
    · exact (hnew w hsame).1 event hmem
    · obtain ⟨hgt, hlt⟩ := h.pending id' w hold event hmem
      exact ⟨hgt, Nat.lt_of_lt_of_le hlt hnext⟩
  · rw [hmark]
    exact Nat.lt_of_lt_of_le h.fresh hnext
  · intro id' w hw
    rcases hcases id' w hw with hsame | hold
    · exact (hnew w hsame).2.1
    · exact h.sorted id' w hold
  · intro id' w hw
    rcases hcases id' w hw with hsame | hold
    · exact (hnew w hsame).2.2
    · exact h.last id' w hold

theorem begin_ordered (h : Ordered s) (id : Nat) (meshId : Option MeshId) :
    Ordered (s.begin id meshId) := by
  unfold begin
  split
  · exact h
  · refine h.write (h.writers.update rfl rfl (Nat.le_refl _) rfl ?_) (.of_eq rfl rfl) rfl rfl rfl
    intro w hw
    cases hw
    exact ⟨nofun, List.Pairwise.nil, rfl⟩

theorem insert_ordered (h : Ordered s) (id : Nat) (cursor : EventId) :
    Ordered (s.insert id cursor) := by
  unfold Outbox.insert
  split
  · exact h
  · rename_i writer hwriter
    split
    · exact h
    · refine h.write (h.writers.update rfl rfl (Nat.le_succ _) rfl ?_) (.of_eq rfl rfl) rfl rfl rfl
      intro w hw
      cases hw
      refine ⟨fun event hmem => ?_, ?_, List.getLast?_concat.symm⟩
      · rcases List.mem_append.mp hmem with hold | hnew
        · obtain ⟨hgt, hlt⟩ := h.writers.pending id writer hwriter event hold
          exact ⟨hgt, Nat.lt_succ_of_lt hlt⟩
        · cases List.mem_singleton.mp hnew
          exact ⟨h.writers.fresh, Nat.lt_succ_self _⟩
      · refine List.pairwise_append.mpr ⟨h.writers.sorted id writer hwriter,
          List.pairwise_singleton .., fun event hmem event' hmem' => ?_⟩
        cases List.mem_singleton.mp hmem'
        exact (h.writers.pending id writer hwriter event hmem).2

theorem mark_ordered (h : Ordered s) (id : Nat) : Ordered (s.mark id) := by
  unfold mark
  split
  · exact h
  · rename_i writer hwriter
    split
    · exact h
    · rename_i event hevent
      split
      · refine h.write (h.writers.update rfl rfl (Nat.le_refl _) rfl ?_) (.of_eq rfl rfl) rfl rfl rfl
        intro w hw
        cases hw
        have hlast := h.writers.last id writer hwriter
        rw [hevent] at hlast
        exact ⟨h.writers.pending id writer hwriter, h.writers.sorted id writer hwriter, hlast⟩
      · exact h

theorem abort_ordered (h : Ordered s) (id : Nat) : Ordered (s.abort id) := by
  unfold abort
  split
  · exact h
  · exact h.write (h.writers.update rfl rfl (Nat.le_refl _) rfl nofun) (.of_eq rfl rfl) rfl rfl rfl

/-- What a transaction commits ends at its last high-water update. -/
theorem WritersOk.marked (h : WritersOk s) {id : Nat} {writer : Writer}
    (hwriter : s.writers id = some writer) (hunmarked : writer.unmarked = none) :
    (writer.inserted = [] ∧ writer.marked = none) ∨
      ∃ event ∈ writer.inserted, writer.marked = some event ∧
        ∀ event' ∈ writer.inserted, event'.sequence ≤ event.sequence := by
  have hlast := h.last id writer hwriter
  rw [hunmarked, Option.none_or] at hlast
  have hsorted := h.sorted id writer hwriter
  rcases List.eq_nil_or_concat writer.inserted with hnil | ⟨rest, event, hconcat⟩
  · rw [hnil] at hlast
    exact .inl ⟨hnil, hlast⟩
  · rw [List.concat_eq_append] at hconcat
    rw [hconcat, List.getLast?_concat] at hlast
    rw [hconcat] at hsorted ⊢
    refine .inr ⟨event, List.mem_append_right _ (List.mem_singleton_self _), hlast, ?_⟩
    intro event' hmem
    rcases List.mem_append.mp hmem with hrest | hsame
    · exact Nat.le_of_lt ((List.pairwise_append.mp hsorted).2.2 event' hrest event
        (List.mem_singleton_self _))
    · rw [List.mem_singleton.mp hsame]

/-- Sequences that ascend are distinct. -/
theorem eq_of_sequence {events : List OutboxEvent} {event event' : OutboxEvent}
    (hsorted : events.Pairwise (·.sequence < ·.sequence)) (hmem : event ∈ events)
    (hmem' : event' ∈ events) (hsame : event.sequence = event'.sequence) : event = event' := by
  have hnodup : (events.map (·.sequence)).Nodup :=
    List.pairwise_map.mpr (hsorted.imp Nat.ne_of_lt)
  exact List.inj_on_of_nodup_map hnodup hmem hmem' hsame

/-- A commit adds what is above the mark. -/
theorem commit_grows (h : WritersOk s) (id : Nat) : Grows s (s.commit id) := by
  unfold commit
  split
  · exact .of_eq rfl rfl
  · rename_i writer hwriter
    split
    · exact .of_eq rfl rfl
    · rename_i hunmarked
      rw [Option.not_isSome_iff_eq_none] at hunmarked
      have hpending := h.pending id writer hwriter
      refine ⟨fun event hold => List.mem_append_left _ hold, fun event hcommitted =>
        (List.mem_append.mp hcommitted).imp_right fun hnew => (hpending event hnew).1, ?_⟩
      show s.highWater ≤ (StreamState.advance s.stream writer.marked).highWaterSequence
      rcases h.marked hwriter hunmarked with ⟨-, hnone⟩ | ⟨last, hmem, hsome, -⟩
      · rw [hnone]
        exact Nat.le_refl _
      · rw [hsome]
        exact Nat.le_of_lt (hpending last hmem).1

theorem commit_ordered (h : Ordered s) (id : Nat) (horder : CommitsInOrder s (.commit id)) :
    Ordered (s.commit id) := by
  have hgrows := commit_grows h.writers id
  unfold commit at hgrows ⊢
  split
  · exact h
  · rename_i writer hwriter
    rw [hwriter] at hgrows
    dsimp only at hgrows
    split
    · exact h
    · rename_i hunmarked
      rw [if_neg hunmarked] at hgrows
      rw [Option.not_isSome_iff_eq_none] at hunmarked
      have hpending := h.writers.pending id writer hwriter
      refine h.write ?_ hgrows rfl rfl rfl
      have hothers : ∀ id' w, Function.update s.writers id none id' = some w →
          id' ≠ id ∧ s.writers id' = some w :=
        fun id' w hw => (update_cases hw).resolve_left nofun
      rcases h.writers.marked hwriter hunmarked with ⟨hnil, hnone⟩ | ⟨last, hmem, hsome, hle⟩
      · -- a transaction without events
        rw [hnil, hnone, List.append_nil]
        exact h.writers.update rfl rfl (Nat.le_refl _) rfl nofun
      · have hmark : s.highWater ≤ last.sequence := Nat.le_of_lt (hpending last hmem).1
        rw [hsome]
        refine ⟨?_, ?_, ?_, (hpending last hmem).2, ?_, ?_⟩
        · intro event hcommitted
          rcases List.mem_append.mp hcommitted with hold | hnew
          · exact ⟨(h.writers.committed event hold).1, (h.writers.committed event hold).2.trans hmark⟩
          · exact ⟨Nat.zero_lt_of_lt (hpending event hnew).1, hle event hnew⟩
        · intro event hevent event' hevent' hsame
          rcases List.mem_append.mp hevent with hold | hnew <;>
            rcases List.mem_append.mp hevent' with hold' | hnew'
          · exact h.writers.unique event hold event' hold' hsame
          · have := (h.writers.committed event hold).2
            have := (hpending event' hnew').1
            omega
          · have := (h.writers.committed event' hold').2
            have := (hpending event hnew).1
            omega
          · exact eq_of_sequence (h.writers.sorted id writer hwriter) hnew hnew' hsame
        · intro id' w hw event hevent
          obtain ⟨hne, hw⟩ := hothers id' w hw
          exact ⟨horder writer id' w hwriter hne hw last hmem event hevent,
            (h.writers.pending id' w hw event hevent).2⟩
        · intro id' w hw
          exact h.writers.sorted id' w (hothers id' w hw).2
        · intro id' w hw
          exact h.writers.last id' w (hothers id' w hw).2

/-! ## Readers

A poll leaves nothing behind that is committed, because a page is cut at its end and the position moves
there.
-/

/-- Steps that write nothing keep the invariant where they keep that of readers and Relays. -/
theorem Ordered.watch (h : Ordered s) (hcommitted : next.committed = s.committed)
    (hstream : next.stream = s.stream) (hnext : next.nextSequence = s.nextSequence)
    (hwriters : next.writers = s.writers)
    (hreaders : ∀ id reader, next.readers id = some reader → ReaderOk s reader)
    (hrelays : ∀ id relay, next.relays id = some relay → CoveredUpTo s relay relay.eventSequence)
    (hcatchUps : ∀ id catchUp, next.catchUps id = some catchUp →
      ∃ relay, next.relays catchUp.relay = some relay ∧ CatchUpOk s relay catchUp) :
    Ordered next := by
  have hgrows : Grows s next := .of_eq hcommitted hstream
  refine ⟨?_, fun id reader hreader => (hreaders id reader hreader).grow hgrows,
    fun id relay hrelay => (hrelays id relay hrelay).grow hgrows, fun id catchUp hcatchUp => ?_⟩
  · obtain ⟨committed, unique, pending, fresh, sorted, last⟩ := h.writers
    have hmark : next.highWater = s.highWater := by rw [highWater, highWater, hstream]
    refine ⟨?_, ?_, ?_, ?_, ?_, ?_⟩
    · rw [hcommitted, hmark]
      exact committed
    · rw [hcommitted]
      exact unique
    · rw [hwriters, hmark, hnext]
      exact pending
    · rw [hmark, hnext]
      exact fresh
    · rw [hwriters]
      exact sorted
    · rw [hwriters]
      exact last
  · obtain ⟨relay, hrelay, hok⟩ := hcatchUps id catchUp hcatchUp
    exact ⟨relay, hrelay, hok.grow hgrows⟩

/-- One reader changes, and nothing else. -/
theorem Ordered.setReader (h : Ordered s) {id : Nat} (hok : ReaderOk s reader) :
    Ordered (s.setReader id reader) := by
  refine h.watch rfl rfl rfl rfl (fun id' reader' hreader => ?_) h.relays h.catchUps
  rcases update_cases hreader with ⟨-, hsame⟩ | ⟨-, hold⟩
  · cases hsame
    exact hok
  · exact h.readers id' reader' hold

theorem openReader_ordered (h : Ordered s) (id : Nat) (cursor : Option EventId) :
    Ordered (s.openReader id cursor) := by
  unfold openReader
  split
  · exact h
  · split
    · exact h
    · rename_i start hstart
      refine h.setReader ⟨Nat.le_refl _, ?_, fun event hmem => .inl hmem, fun event _ hlt => .inr hlt⟩
      -- the position is the mark or a committed sequence
      unfold eventReplayStart at hstart
      dsimp only at hstart
      split at hstart
      · cases hstart
      · split at hstart
        · cases hstart
          exact Nat.le_refl _
        · split at hstart
          · cases hstart
          · rename_i event hfound
            cases hstart
            exact (h.writers.committed event (List.mem_of_find?_eq_some hfound)).2

/-- A page that is not empty moves the position to its last event, and leaves out later events only. -/
theorem page_position (h : Ordered s) (position : Nat) :
    s.eventsAfterGlobalSequence position 500 = [] ∨
      ∃ last ∈ s.committed, position < last.sequence ∧
        (s.eventsAfterGlobalSequence position 500).getLast?.map (·.sequence) = some last.sequence ∧
        ∀ event ∈ s.committed, position < event.sequence →
          event ∈ s.eventsAfterGlobalSequence position 500 ∨ last.sequence < event.sequence := by
  rcases List.eq_nil_or_concat (s.eventsAfterGlobalSequence position 500) with
    hnil | ⟨rest, last, hpage⟩
  · exact .inl hnil
  · rw [List.concat_eq_append] at hpage
    have hlast : last ∈ s.eventsAfterGlobalSequence position 500 := by
      rw [hpage]
      exact List.mem_append_right _ (List.mem_singleton_self _)
    obtain ⟨hcommitted, hafter⟩ := mem_of_mem_page hlast
    refine .inr ⟨last, hcommitted, hafter, ?_, fun event hmem hahead => ?_⟩
    · rw [hpage, List.getLast?_concat]
      rfl
    · by_cases hin : event ∈ s.eventsAfterGlobalSequence position 500
      · exact .inl hin
      · have hle := le_of_not_mem_page hmem hahead hin last hlast
        refine .inr (Nat.lt_of_le_of_ne hle fun hsame => hin ?_)
        rw [← h.writers.unique last hcommitted event hmem hsame]
        exact hlast

theorem poll_ordered (h : Ordered s) (id : Nat) : Ordered (s.poll id) := by
  unfold poll
  split
  · exact h
  · rename_i reader hreader
    have hok := h.readers id reader hreader
    apply h.setReader
    rcases page_position h reader.position with hnil | ⟨last, hmem, hafter, hposition, hrest⟩
    · rw [hnil, List.append_nil]
      exact hok
    · rw [hposition]
      refine ⟨hok.start.trans (Nat.le_of_lt hafter), (h.writers.committed last hmem).2, hok.late, ?_⟩
      intro event hevent hstart
      rcases hok.returned event hevent hstart with hold | hahead
      · exact .inl (List.mem_append_left _ hold)
      · exact (hrest event hevent hahead).imp_left (List.mem_append_right _)

/-! ## Relays

A catch-up reads the mark before or together with the events. So whatever is committed later is above the
position it sets.
-/

theorem startRelay_ordered (h : Ordered s) (id : Nat) (meshId : MeshId) :
    Ordered (s.startRelay id meshId) := by
  unfold startRelay
  split
  · exact h
  · rename_i hfree
    rw [Option.not_isSome_iff_eq_none] at hfree
    refine h.watch rfl rfl rfl rfl h.readers (fun id' relay hrelay => ?_)
      fun id' catchUp hcatchUp => ?_
    · rcases update_cases hrelay with ⟨-, hsame⟩ | ⟨-, hold⟩
      · cases hsame
        refine ⟨Nat.zero_le _, fun event hmem _ hle => ?_⟩
        exact absurd (h.writers.committed event hmem).1 (Nat.not_lt.mpr hle)
      · exact h.relays id' relay hold
    · obtain ⟨relay, hrelay, hok⟩ := h.catchUps id' catchUp hcatchUp
      have hne : catchUp.relay ≠ id := by
        intro hsame
        rw [hsame, hfree] at hrelay
        cases hrelay
      refine ⟨relay, ?_, hok⟩
      show Function.update s.relays id _ catchUp.relay = some relay
      rw [Function.update_of_ne hne, hrelay]

/-- One catch-up changes or goes, and nothing else. -/
theorem Ordered.setCatchUp (h : Ordered s) {id : Nat} {value : Option CatchUp}
    (hok : ∀ catchUp, value = some catchUp →
      ∃ relay, s.relays catchUp.relay = some relay ∧ CatchUpOk s relay catchUp) :
    Ordered (s.setCatchUp id value) := by
  refine h.watch rfl rfl rfl rfl h.readers h.relays fun id' catchUp hcatchUp => ?_
  rcases update_cases hcatchUp with ⟨-, hsame⟩ | ⟨-, hold⟩
  · exact hok catchUp hsame
  · exact h.catchUps id' catchUp hold

/-- A catch-up at a stage that promises nothing. -/
theorem catchUpOk_loading {id : Nat} {seen : List OutboxEvent}
    (hseen : ∀ event ∈ seen, event ∈ s.committed) :
    CatchUpOk s relay { relay := id, seen, stage := .loading } :=
  ⟨hseen, nofun, nofun, nofun, nofun⟩

theorem startCatchUp_ordered (h : Ordered s) (id relay : Nat) (load : Bool) :
    Ordered (s.startCatchUp id relay load) := by
  unfold startCatchUp
  split
  · exact h
  · split
    · exact h
    · rename_i state hrelay
      apply h.setCatchUp
      intro catchUp hsame
      cases hsame
      refine ⟨state, hrelay, ?_⟩
      cases load with
      | true => exact catchUpOk_loading fun event hmem => hmem
      | false =>
          refine ⟨fun event hmem => hmem, ?_, nofun, nofun, nofun⟩
          intro sequence hstage
          cases hstage
          exact h.relays relay state hrelay

theorem readState_ordered (h : Ordered s) (id : Nat) : Ordered (s.readState id) := by
  unfold readState
  split
  · rename_i relay seen sequence hcatchUp
    obtain ⟨state, hrelay, hok⟩ := h.catchUps id _ hcatchUp
    apply h.setCatchUp
    intro catchUp hsame
    cases hsame
    refine ⟨state, hrelay, hok.seen, nofun, ?_, nofun, nofun⟩
    intro sequence' mark gap hstage
    cases hstage
    exact ⟨hok.started sequence rfl, Nat.le_refl _, fun event hmem =>
      (h.writers.committed event (hok.seen event hmem)).2⟩
  · exact h

theorem readEvents_ordered (h : Ordered s) (id : Nat) : Ordered (s.readEvents id) := by
  unfold readEvents
  split
  · rename_i relay seen sequence mark gap hcatchUp
    obtain ⟨state, hrelay, hok⟩ := h.catchUps id _ hcatchUp
    split
    · exact h
    · rename_i state' hrelay'
      have hsame : state' = state := Option.some.inj (hrelay'.symm.trans hrelay)
      subst hsame
      apply h.setCatchUp
      intro catchUp hsame
      cases hsame
      refine ⟨state', hrelay, ?_⟩
      cases gap with
      | true => exact catchUpOk_loading hok.seen
      | false =>
          cases hquiet : (s.eventsAfterSequence state'.meshId sequence 500).isEmpty with
          | false =>
              simp only [Bool.false_eq_true, if_false, Bool.false_or, hquiet, Bool.not_false, if_true]
              exact catchUpOk_loading hok.seen
          | true =>
              simp only [Bool.false_eq_true, if_false, Bool.false_or, hquiet, Bool.not_true]
              obtain ⟨hcovered, hmark, hseen⟩ := hok.stateRead sequence mark false rfl
              refine ⟨hok.seen, nofun, nofun, ?_, nofun⟩
              intro mark' hstage
              cases hstage
              refine ⟨⟨hmark, fun event hmem hconcerns hle => ?_⟩, hseen⟩
              -- an event after the position would have been on the page
              apply hcovered.2 event hmem hconcerns
              by_contra hahead
              have hfiltered : event ∈ s.committed.filter (concerns state'.meshId) :=
                List.mem_filter.mpr ⟨hmem, hconcerns⟩
              exact page_ne_nil hfiltered (Nat.not_le.mp hahead) (by decide)
                (List.isEmpty_iff.mp hquiet)
  · exact h

theorem readSnapshot_ordered (h : Ordered s) (id : Nat) : Ordered (s.readSnapshot id) := by
  unfold readSnapshot
  split
  · rename_i relay seen hcatchUp
    obtain ⟨state, hrelay, hok⟩ := h.catchUps id _ hcatchUp
    apply h.setCatchUp
    intro catchUp hsame
    cases hsame
    refine ⟨state, hrelay, hok.seen, nofun, nofun, nofun, ?_⟩
    intro rows mark hstage
    cases hstage
    exact ⟨Nat.le_refl _, fun event hmem _ => hmem, hok.seen⟩
  · exact h

/-- A Relay moves on, having covered no less. -/
theorem Ordered.setRelay (h : Ordered s) {id : Nat} {relay' : Relay} (hrelay : s.relays id = some relay)
    (hmesh : relay'.meshId = relay.meshId) (hcovered : ∀ event ∈ relay.covered, event ∈ relay'.covered)
    (hok : CoveredUpTo s relay' relay'.eventSequence) : Ordered (s.setRelay id relay') := by
  refine h.watch rfl rfl rfl rfl h.readers (fun id' relay hrelay => ?_)
    fun id' catchUp hcatchUp => ?_
  · rcases update_cases hrelay with ⟨-, hsame⟩ | ⟨-, hold⟩
    · cases hsame
      exact hok
    · exact h.relays id' relay hold
  · obtain ⟨state, hstate, hok'⟩ := h.catchUps id' catchUp hcatchUp
    by_cases hid : catchUp.relay = id
    · rw [hid, hrelay] at hstate
      cases hstate
      refine ⟨relay', ?_, hok'.of_covered hmesh hcovered⟩
      show Function.update s.relays id _ catchUp.relay = some relay'
      rw [hid, Function.update_self]
    · refine ⟨state, ?_, hok'⟩
      show Function.update s.relays id _ catchUp.relay = some state
      rw [Function.update_of_ne hid, hstate]

theorem finish_ordered (h : Ordered s) (id : Nat) : Ordered (s.finish id) := by
  unfold finish
  split
  · exact h
  · rename_i catchUp hcatchUp
    obtain ⟨state, hrelay, hok⟩ := h.catchUps id catchUp hcatchUp
    rw [hrelay]
    dsimp only
    split
    · rename_i mark hstage
      have hmoved : Ordered (s.setRelay catchUp.relay { state with eventSequence := mark }) :=
        h.setRelay hrelay rfl (fun event hmem => hmem) (hok.quiet mark hstage).1
      exact hmoved.setCatchUp (by nofun)
    · rename_i rows mark hstage
      obtain ⟨hmark, hrows, -⟩ := hok.snapshot rows mark hstage
      have hmoved : Ordered (s.setRelay catchUp.relay
          { state with eventSequence := mark, covered := state.covered ++ rows }) :=
        h.setRelay hrelay rfl (fun event hmem => List.mem_append_left _ hmem)
          ⟨hmark, fun event hmem _ hle => List.mem_append_right _ (hrows event hmem hle)⟩
      exact hmoved.setCatchUp (by nofun)
    · exact h

/-! ## Runs -/

theorem step_ordered (h : Ordered s) {op : Op} (horder : CommitsInOrder s op) :
    Ordered (s.step op) := by
  cases op with
  | begin id meshId => exact begin_ordered h id meshId
  | insert id cursor => exact insert_ordered h id cursor
  | mark id => exact mark_ordered h id
  | commit id => exact commit_ordered h id horder
  | abort id => exact abort_ordered h id
  | openReader id cursor => exact openReader_ordered h id cursor
  | poll id => exact poll_ordered h id
  | startRelay id meshId => exact startRelay_ordered h id meshId
  | startCatchUp id relay load => exact startCatchUp_ordered h id relay load
  | readState id => exact readState_ordered h id
  | readEvents id => exact readEvents_ordered h id
  | readSnapshot id => exact readSnapshot_ordered h id
  | finish id => exact finish_ordered h id
  | abandon id => exact h.setCatchUp nofun

theorem ordered_after {ops : List Op}
    (h : Along (fun before op => CommitsInOrder (after before) op) ops) : Ordered (after ops) := by
  refine along_history (I := fun ops => Ordered (after ops)) ordered_empty ?_ h
  intro before op horder ih
  rw [after_concat]
  exact step_ordered ih horder

/-- Only commits change what is committed, and only streams their readers. -/
theorem step_frame (s : Outbox) (op : Op) :
    (((s.step op).committed = s.committed ∧ (s.step op).stream = s.stream) ∨ ∃ id, op = .commit id) ∧
      ((s.step op).readers = s.readers ∨ (∃ id, op = .poll id) ∨
        ∃ id cursor, op = .openReader id cursor) := by
  cases op with
  | commit id =>
      refine ⟨.inr ⟨id, rfl⟩, .inl ?_⟩
      unfold step commit
      dsimp only
      repeat' split
      all_goals rfl
  | poll id =>
      refine ⟨.inl ?_, .inr (.inl ⟨id, rfl⟩)⟩
      unfold step poll
      dsimp only
      split <;> exact ⟨rfl, rfl⟩
  | openReader id cursor =>
      refine ⟨.inl ?_, .inr (.inr ⟨id, cursor, rfl⟩)⟩
      unfold step openReader
      dsimp only
      repeat' split
      all_goals exact ⟨rfl, rfl⟩
  | readEvents id =>
      unfold step readEvents
      dsimp only
      split
      · split <;> exact ⟨.inl ⟨rfl, rfl⟩, .inl rfl⟩
      · exact ⟨.inl ⟨rfl, rfl⟩, .inl rfl⟩
  | _ =>
      unfold step
      dsimp only [begin, Outbox.insert, mark, abort, startRelay, startCatchUp, readState, readSnapshot,
        finish]
      repeat' split
      all_goals exact ⟨.inl ⟨rfl, rfl⟩, .inl rfl⟩

theorem step_grows (h : WritersOk s) (op : Op) : Grows s (s.step op) := by
  rcases (step_frame s op).1 with ⟨hcommitted, hstream⟩ | ⟨id, rfl⟩
  · exact .of_eq hcommitted hstream
  · exact commit_grows h id

/-- Only its own polls change a reader that is open. -/
theorem step_reader {id : Nat} {op : Op} (hreader : s.readers id = some reader) (hop : op ≠ .poll id) :
    (s.step op).readers id = some reader := by
  rcases (step_frame s op).2 with hsame | ⟨id', rfl⟩ | ⟨id', cursor, rfl⟩
  · rw [hsame, hreader]
  · have hne : id ≠ id' := fun hsame => hop (by rw [hsame])
    unfold step poll
    dsimp only
    split
    · exact hreader
    · show Function.update s.readers id' _ id = some reader
      rw [Function.update_of_ne hne, hreader]
  · unfold step openReader
    dsimp only
    split
    · exact hreader
    · rename_i hfree
      have hne : id ≠ id' := by
        intro hsame
        rw [← hsame, hreader] at hfree
        exact hfree rfl
      split
      · exact hreader
      · show Function.update s.readers id' _ id = some reader
        rw [Function.update_of_ne hne, hreader]

/-! ## The result

Every poll of a reader that is behind an event brings it nearer, by one sequence at least. So an event has
been returned after as many polls as its sequence.
-/

theorem grows_after {before more : List Op}
    (h : Along (fun before op => CommitsInOrder (after before) op) (before ++ more)) :
    Grows (after before) (after (before ++ more)) := by
  induction more using List.reverseRecOn with
  | nil =>
      rw [List.append_nil]
      exact .of_eq rfl rfl
  | append_singleton more op ih =>
      rw [← List.append_assoc] at h ⊢
      have hleft := ih h.left
      have hstep := step_grows (ordered_after h.left).writers op
      rw [after_concat]
      refine ⟨fun event hmem => hstep.kept event (hleft.kept event hmem), fun event hmem => ?_,
        hleft.mark.trans hstep.mark⟩
      rcases hstep.new event hmem with hold | hnew
      · exact hleft.new event hold
      · exact .inr (Nat.lt_of_le_of_lt hleft.mark hnew)

/-- A poll of a reader that is still behind an event returns it, or brings the reader nearer. -/
theorem poll_progress (h : Ordered s) {id : Nat} (hreader : s.readers id = some reader)
    {event : OutboxEvent} (hmem : event ∈ s.committed) (hahead : reader.position < event.sequence) :
    ∃ reader', (s.poll id).readers id = some reader' ∧ reader'.start = reader.start ∧
      (event ∈ reader'.returned ∨
        reader.position < reader'.position ∧ reader'.position < event.sequence) := by
  unfold poll
  rw [hreader]
  refine ⟨_, Function.update_self .., rfl, ?_⟩
  rcases page_position h reader.position with hnil | ⟨last, hlast, hafter, hposition, hrest⟩
  · exact absurd hnil (page_ne_nil hmem hahead (by decide))
  · rw [hposition]
    exact (hrest event hmem hahead).imp (List.mem_append_right _) fun hlater => ⟨hafter, hlater⟩

/-- As long as an event is ahead of a reader, every poll counts. -/
theorem polled_after {before more : List Op} {id : Nat} {event : OutboxEvent}
    (h : Along (fun before op => CommitsInOrder (after before) op) (before ++ more))
    (hreader : (after before).readers id = some reader) (hmem : event ∈ (after before).committed)
    (hstart : reader.start < event.sequence) :
    ∃ reader', (after (before ++ more)).readers id = some reader' ∧
      (event ∈ reader'.returned ∨
        polls id more ≤ reader'.position ∧ reader'.position < event.sequence) := by
  induction more using List.reverseRecOn with
  | nil =>
      rw [List.append_nil] at h ⊢
      refine ⟨reader, hreader, ?_⟩
      exact (((ordered_after h).readers id reader hreader).returned event hmem hstart).imp_right
        fun hahead => ⟨Nat.zero_le _, hahead⟩
  | append_singleton more op ih =>
      rw [← List.append_assoc] at h ⊢
      obtain ⟨reader', hreader', hprogress⟩ := ih h.left
      have hordered := ordered_after h.left
      have hcommitted := (grows_after h.left).kept event hmem
      rw [after_concat]
      by_cases hop : op = .poll id
      · subst hop
        have hcount : polls id (more ++ [.poll id]) = polls id more + 1 := by
          simp [polls, List.countP_append]
        rcases hprogress with hreturned | ⟨hcounted, hahead⟩
        · show ∃ reader', ((after (before ++ more)).poll id).readers id = some reader' ∧ _
          unfold poll
          rw [hreader']
          exact ⟨_, Function.update_self .., .inl (List.mem_append_left _ hreturned)⟩
        · obtain ⟨next, hnext, -, hdone⟩ := poll_progress hordered hreader' hcommitted hahead
          refine ⟨next, hnext, hdone.imp_right fun ⟨hmoved, hbehind⟩ => ⟨?_, hbehind⟩⟩
          rw [hcount]
          omega
      · have hcount : polls id (more ++ [op]) = polls id more := by
          unfold polls
          rw [List.countP_append, Nat.add_eq_left, List.countP_singleton, if_neg]
          cases op with
          | poll id' => simpa using fun hsame : id' = id => hop (by rw [hsame])
          | _ => nofun
        rw [hcount]
        exact ⟨reader', step_reader hreader' hop, hprogress⟩

/-- **Nothing is missed** in runs whose transactions commit in the order of their sequences. -/
theorem nothingMissed_of_commitsInOrder (ops : List Op)
    (h : Along (fun before op => CommitsInOrder (after before) op) ops) : NothingMissed ops := by
  have hordered := ordered_after h
  refine ⟨?_, fun event hmem => (hordered.writers.committed event hmem).2, ?_, ?_, ?_⟩
  · rintro before more rfl
    exact (grows_after h).mark
  · intro id writer hwriter event hmem
    have hpending := (hordered.writers.pending id writer hwriter event hmem).1
    exact ⟨fun id' reader hreader => Nat.lt_of_le_of_lt (hordered.readers id' reader hreader).position
        hpending,
      fun id' relay hrelay => Nat.lt_of_le_of_lt (hordered.relays id' relay hrelay).1 hpending⟩
  · rintro before more rfl id reader hreader event hmem hpromised hpolls
    have hok := (ordered_after h.left).readers id reader hreader
    have hstart : reader.start < event.sequence := by
      rcases hpromised with hnew | hstart
      · exact (hok.late event hmem).resolve_left hnew
      · exact hstart
    obtain ⟨reader', hreader', hdone⟩ := polled_after h hreader hmem hstart
    refine ⟨reader', hreader', hdone.resolve_right ?_⟩
    omega
  · rintro before id rfl catchUp relay hcatchUp hdone hrelay event hseen hconcerns
    obtain ⟨relay', hrelay', hok⟩ := (ordered_after h.left).catchUps id catchUp hcatchUp
    have hsame : relay' = relay := Option.some.inj (hrelay'.symm.trans hrelay)
    subst hsame
    have hcommitted := hok.seen event hseen
    rw [after_concat]
    show ∃ relay', ((after before).finish id).relays catchUp.relay = some relay' ∧ _
    unfold finish
    rw [hcatchUp]
    dsimp only
    rw [hrelay]
    dsimp only
    split
    · rename_i mark hstage
      obtain ⟨hcovered, hmark⟩ := hok.quiet mark hstage
      exact ⟨_, Function.update_self .., hcovered.2 event hcommitted hconcerns (hmark event hseen)⟩
    · rename_i rows mark hstage
      exact ⟨_, Function.update_self ..,
        List.mem_append_right _ ((hok.snapshot rows mark hstage).2.2 event hseen)⟩
    · rename_i hquiet hsnapshot
      cases hstage : catchUp.stage with
      | quiet mark => exact absurd hstage (hquiet mark)
      | snapshot rows mark => exact absurd hstage (hsnapshot rows mark)
      | _ =>
          rw [hstage] at hdone
          cases hdone

section Examples

def meshOne : MeshId := ⟨0x00000000000040008000000000000001#128, Types.random_one⟩
def meshTwo : MeshId := ⟨0x00000000000040008000000000000002#128, Types.random_two⟩
def cursorOne : EventId := ⟨0x00000000000040008000000000000003#128, Types.random_three⟩
def cursorTwo : EventId := ⟨0x00000000000040008000000000000004#128, Types.random_four⟩

def eventOne : OutboxEvent where
  sequence := 1
  cursor := cursorOne
  meshId := some meshOne

def eventTwo : OutboxEvent where
  sequence := 2
  cursor := cursorTwo
  meshId := some meshTwo

/-- A transaction with one event. -/
def write (id : Nat) (meshId : MeshId) (cursor : EventId) : List Op :=
  [.begin id (some meshId), .insert id cursor, .mark id]

/-- Two transactions are open at once, and the one with the smaller sequence commits first; a Relay of its
mesh catches up while the other one commits. -/
def inTurn : List Op :=
  [.openReader 0 none, .startRelay 0 meshOne, .begin 0 (some meshOne), .begin 1 (some meshTwo),
    .insert 0 cursorOne, .insert 1 cursorTwo, .mark 0, .commit 0, .poll 0, .startCatchUp 0 0 false,
    .readState 0, .readEvents 0, .mark 1, .commit 1, .readSnapshot 0, .poll 0, .finish 0]

theorem two_writers_miss_nothing : NothingMissed inTurn := by
  apply nothingMissed_of_commitsInOrder
  refine along_iff_throughout.mpr ⟨trivial, trivial, trivial, trivial, trivial, trivial, trivial, ?_, trivial,
    trivial, trivial, trivial, trivial, ?_, trivial, trivial, trivial, trivial⟩
  · intro writer id' writer' hwriter hne hwriter' event hevent event' hevent'
    by_cases hother : id' = 1
    · subst hother
      cases (show some _ = some writer from hwriter)
      cases (show some _ = some writer' from hwriter')
      rw [List.mem_singleton.mp hevent, List.mem_singleton.mp hevent']
      decide
    · have hnone : Function.update (Function.update (Function.update (Function.update (Function.update
          (fun _ => none) 0 _) 1 _) 0 _) 1 _) 0 _ id' = some writer' := hwriter'
      simp [Function.update_of_ne hne, Function.update_of_ne hother] at hnone
  · intro writer id' writer' hwriter hne hwriter'
    by_cases hother : id' = 0
    · subst hother
      cases (show none = some writer' from hwriter')
    · have hnone : Function.update (Function.update (Function.update (Function.update (Function.update
          (Function.update (Function.update (fun _ => none) 0 _) 1 _) 0 _) 1 _) 0 _) 0 none) 1 _ id' =
            some writer' := hwriter'
      simp [Function.update_of_ne hne, Function.update_of_ne hother] at hnone

/-- The first writer has taken its sequence, the second one commits before it. -/
def overtaken : List Op :=
  [.openReader 0 none, .begin 0 (some meshOne), .insert 0 cursorOne] ++
    write 1 meshTwo cursorTwo ++ [.commit 1, .poll 0, .mark 0, .commit 0]

/-- The stream has passed the first event when it is committed, and never returns it. -/
theorem overtaken_event_is_missed : ¬ NothingMissed (overtaken ++ [.poll 0]) := by
  intro h
  have hreader : (after overtaken).readers 0 =
      some { start := 0, before := [], position := 2, returned := [eventTwo] } := by
    decide +kernel
  have hlater : (after (overtaken ++ [.poll 0])).readers 0 =
      some { start := 0, before := [], position := 2, returned := [eventTwo] } := by
    decide +kernel
  obtain ⟨reader', hreader', hreturned⟩ := h.polled overtaken [.poll 0] rfl 0 _ hreader eventOne
    (by decide +kernel) (.inl (List.not_mem_nil)) (by decide)
  rw [hlater] at hreader'
  cases hreader'
  exact absurd hreturned (by decide)

end Examples

end Outbox

end Peerward.Store
