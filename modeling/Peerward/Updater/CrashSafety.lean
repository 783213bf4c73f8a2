import Peerward.Updater.Effects

/-!
# Crash safety of updates

What holds after every history of operations on one role, each of them by any process and cut anywhere.
The invariant `Sound` ties the journal, the links and the binaries together; it is what makes the checks
of an activation pass again wherever the activation before it was cut.
-/

namespace Peerward.Updater

open Peerward.Lib Durable
open Peerward.Types (Text)

variable (lib : Libraries)

/-! ## What should hold -/

/-- The role is installed, and no update of it has started. -/
structure Start (s : Installation) : Prop where
  journal : s.journal .transaction = none
  linkTemporaries : s.linkTemporaries = []
  installed : ∀ version, s.link .current = some (.release version) →
    (s.versions version).binary ≠ none

/-- Work resumes: the journal is loaded and activated. -/
def resumeOnce (schema wire : Nat) (s : Installation) (pid : Nat) : Installation :=
  match load lib s with
  | .ok (some record) => (activate lib pid record schema wire).run s
  | _ => s

/-- Repeated activation, by processes of any ids. -/
def resume (schema wire : Nat) (pids : List Nat) (s : Installation) : Installation :=
  pids.foldl (resumeOnce lib schema wire) s

/-- The current link names one of the two versions of a journal. -/
def Anchored (s : Installation) (record : UpdateTransaction) : Prop :=
  s.link .current = some (.release record.previousVersion) ∨
    s.link .current = some (.release record.manifest.version)

variable {lib} {s t start : Installation} {record : UpdateTransaction} {pid : Nat} {op : Op}

/-! ## The invariant

An update has a journal and two links. The current one names one of the two versions of the journal, both of
which stay on disk until the update is over.
-/

/-- What holds after every call: a journal and the links agree, and every link that is followed later
leads to a binary. -/
structure Sound (s : Installation) : Prop where
  resolved : Resolved s
  installed : ∀ version, s.link .current = some (.release version) →
    (s.versions version).binary ≠ none
  anchored : ∀ record, s.journal .transaction = some record → Anchored s record
  staged : ∀ record, s.journal .transaction = some record → Staged s record

theorem Start.sound (h : Start s) : Sound s := by
  refine ⟨?_, h.installed, fun record hrecord => ?_, fun record hrecord => ?_⟩
  · unfold Resolved
    rw [h.linkTemporaries]
    nofun
  · rw [h.journal] at hrecord
    cases hrecord
  · rw [h.journal] at hrecord
    cases hrecord

theorem Quiet.resolved (h : Resolved s) (ht : Quiet s t) : Resolved t := by
  intro link hmem
  rw [ht.linkTemporaries] at hmem
  obtain ⟨version, htarget, hbinary⟩ := h link hmem
  exact ⟨version, htarget, ht.binary version hbinary⟩

theorem Effect.sound (h : Sound s) (ht : Effect op s t) : Sound t := by
  have hquiet := ht.quiet
  refine ⟨hquiet.resolved h.resolved, fun version hcurrent => ?_, fun record hrecord => ?_,
    fun record hrecord => ?_⟩
  · rw [hquiet.link] at hcurrent
    exact hquiet.binary version (h.installed version hcurrent)
  · unfold Anchored
    rw [hquiet.link]
    cases ht.journal with
    | same hjournal => exact h.anchored record (hjournal ▸ hrecord)
    | rewritten old new held journal manifest previousVersion =>
        rw [hrecord] at journal
        cases journal
        rw [manifest, previousVersion]
        exact h.anchored old held
    | prepared new journal _ current =>
        rw [hrecord] at journal
        cases journal
        exact .inl current
  · have hkept : ∀ old, Staged s old → Staged t old :=
      fun old hold => ⟨hquiet.binary _ hold.1, hquiet.binary _ hold.2⟩
    cases ht.journal with
    | same hjournal => exact hkept record (h.staged record (hjournal ▸ hrecord))
    | rewritten old new held journal manifest previousVersion =>
        rw [hrecord] at journal
        cases journal
        unfold Staged
        rw [manifest, previousVersion]
        exact hkept old (h.staged old held)
    | prepared new journal _ current staged =>
        rw [hrecord] at journal
        cases journal
        exact ⟨hquiet.binary _ (h.installed _ current), staged⟩

theorem journal_of_activateChecks {schema wire : Nat} {switch : Bool}
    (h : activateChecks lib record schema wire s = .ok switch) :
    s.journal .transaction = some record := by
  obtain ⟨_, hcurrent, _⟩ := bind_eq_ok.mp h
  exact journal_of_load (load_of_requireCurrentRecord hcurrent)

/-- Without the checks an activation writes nothing. -/
theorem activate_unchecked {schema wire : Nat}
    (h : activateChecks lib record schema wire s ≠ .ok true) :
    (activate lib pid record schema wire s).1 = [] := by
  show (andThen (ask (activateChecks lib record schema wire)) _ s).1 = []
  unfold andThen ask
  dsimp only
  cases hchecks : activateChecks lib record schema wire s with
  | error _ => rfl
  | ok switch =>
      cases switch with
      | false => rfl
      | true => exact absurd hchecks h

variable (lib pid) in
/-- What an activation leaves, whether it was cut or not. -/
theorem interrupt_activate (h : Sound s) (record : UpdateTransaction) (schema wire k : Nat) :
    interrupt lib pid (.activate record schema wire) k s = s ∧
        activateChecks lib record schema wire s ≠ .ok true ∨
      Activating lib s record (interrupt lib pid (.activate record schema wire) k s) ∧
        activateChecks lib record schema wire s = .ok true := by
  by_cases hchecks : activateChecks lib record schema wire s = .ok true
  · have hstaged := h.staged record (journal_of_activateChecks hchecks)
    exact .inr ⟨(ensures_activate pid h.resolved hstaged hchecks).1 k, hchecks⟩
  · refine .inl ⟨?_, hchecks⟩
    show writes s ((activate lib pid record schema wire s).1.take k) = s
    rw [activate_unchecked hchecks, List.take_nil, writes_nil]

theorem selectedVersion_cases (record : UpdateTransaction) :
    record.selectedVersion = record.previousVersion ∨
      record.selectedVersion = record.manifest.version := by
  unfold UpdateTransaction.selectedVersion
  split
  · exact .inr rfl
  · exact .inl rfl

theorem switched_current (record : UpdateTransaction) (s : Installation) :
    switched record s .current = some (.release record.selectedVersion) :=
  Function.update_self LinkName.current _ _

/-- An activation leaves the current link or switches it to the selected version. -/
theorem Activating.current (h : Activating lib s record t) :
    t.link .current = s.link .current ∨ t.link .current = some (.release record.selectedVersion) := by
  rcases h.links with hlink | hlink | hlink
  · exact .inl (congrFun hlink _)
  · left
    rw [hlink, Function.update_of_ne (by decide)]
  · right
    rw [hlink, switched_current]

/-- The journal after an activation is of the same update, in the same direction. -/
theorem Activating.journal_cases (h : Activating lib s record t)
    (hold : s.journal .transaction = some record) :
    t.journal .transaction = some record ∨ t.journal .transaction = some (restartPending record) :=
  h.journal.imp (·.trans hold) (·.1)

theorem Activating.sound (hs : Sound s) (hold : s.journal .transaction = some record)
    (h : Activating lib s record t) : Sound t := by
  have hanchored : Anchored t record := by
    unfold Anchored
    rcases h.current with hlink | hlink
    · rw [hlink]
      exact hs.anchored record hold
    · rw [hlink]
      rcases selectedVersion_cases record with hversion | hversion
      · exact .inl (by rw [hversion])
      · exact .inr (by rw [hversion])
  have hstaged : Staged t record := by
    unfold Staged
    rw [h.versions]
    exact hs.staged record hold
  refine ⟨h.resolved, fun version hcurrent => ?_, fun record' hrecord => ?_, fun record' hrecord => ?_⟩
  · rcases h.current with hlink | hlink
    · rw [h.versions]
      exact hs.installed version (hlink ▸ hcurrent)
    · rw [hlink] at hcurrent
      cases hcurrent
      exact hstaged.selected
  · rcases h.journal_cases hold with hjournal | hjournal <;> rw [hrecord] at hjournal <;>
      cases hjournal
    · exact hanchored
    · exact hanchored
  · rcases h.journal_cases hold with hjournal | hjournal <;> rw [hrecord] at hjournal <;>
      cases hjournal
    · exact hstaged
    · exact hstaged

/-- Every operation keeps the invariant, wherever it is cut. -/
theorem Sound.interrupt (h : Sound s) (op : Op) (k : Nat) : Sound (interrupt lib pid op k s) := by
  cases hop : isActivate op with
  | false => exact (effect_interrupt lib _ _ hop k).sound h
  | true =>
      cases op with
      | activate record schema wire =>
          rcases interrupt_activate lib _ h record schema wire k with ⟨hsame, -⟩ | ⟨hleft, hchecks⟩
          · rw [hsame]
            exact h
          · exact hleft.sound h (journal_of_activateChecks hchecks)
      | _ => cases hop

theorem Sound.step (h : Sound s) (call : Call) : Sound (step lib s call) := by
  obtain ⟨k, hk⟩ := exists_interrupt lib s call
  rw [hk]
  exact h.interrupt call.op k

/-- What `activate` checks, in one place. -/
theorem activateChecks_eq_true {schema wire : Nat} :
    activateChecks lib record schema wire s = .ok true ↔
      load lib s = .ok (some record) ∧
      (∃ floor, acceptedRollbackFloor lib s.accepted = .ok floor ∧
        verifyInstalledVersion lib record.selectedVersion schema wire floor s = .ok ()) ∧
      (∃ current, targetVersion lib (s.link .current) = .ok current ∧
        (current = record.previousVersion ∨ current = record.manifest.version)) ∧
      record.isTerminal = false := by
  constructor
  · intro h
    obtain ⟨_, hcurrent, h⟩ := bind_eq_ok.mp h
    obtain ⟨floor, hfloor, h⟩ := bind_eq_ok.mp h
    obtain ⟨_, hverify, h⟩ := bind_eq_ok.mp h
    obtain ⟨current, htarget, h⟩ := bind_eq_ok.mp h
    obtain ⟨_, hanchored, h⟩ := bind_eq_ok.mp h
    refine ⟨load_of_requireCurrentRecord hcurrent, ⟨floor, hfloor, hverify⟩, ⟨current, htarget, ?_⟩, ?_⟩
    · have hne := rejectIf_eq_ok.mp hanchored
      grind
    · split at h
      · split at h <;> cases h
      · next hterminal => exact Bool.eq_false_iff.mpr hterminal
  · rintro ⟨hload, ⟨floor, hfloor, hverify⟩, ⟨current, htarget, hanchored⟩, hterminal⟩
    refine bind_eq_ok.mpr ⟨(), ?_, bind_eq_ok.mpr ⟨floor, hfloor, bind_eq_ok.mpr ⟨(), hverify,
      bind_eq_ok.mpr ⟨current, htarget, bind_eq_ok.mpr ⟨(), ?_, ?_⟩⟩⟩⟩⟩
    · refine bind_eq_ok.mpr ⟨some record, hload, rejectIf_eq_ok.mpr ?_⟩
      simp
    · refine rejectIf_eq_ok.mpr ?_
      grind
    · rw [hterminal]
      rfl

theorem canonical_of_verify {version floor : Text} {schema wire : Nat}
    (h : verifyInstalledVersion lib version schema wire floor s = .ok ()) :
    (canonicalVersion lib version).isSome = true := by
  unfold verifyInstalledVersion at h
  split at h
  · cases h
  · obtain ⟨_, _, h⟩ := bind_eq_ok.mp h
    obtain ⟨_, _, h⟩ := bind_eq_ok.mp h
    obtain ⟨_, horder, _⟩ := bind_eq_ok.mp h
    obtain ⟨parsed, hparsed, _⟩ := bind_eq_ok.mp horder
    unfold parsedVersion at hparsed
    split at hparsed
    · next hsome =>
        rw [hsome]
        rfl
    · cases hparsed

theorem verifyInstalledVersion_congr (h : t.versions = s.versions) (version floor : Text)
    (schema wire : Nat) :
    verifyInstalledVersion lib version schema wire floor t =
      verifyInstalledVersion lib version schema wire floor s := by
  unfold verifyInstalledVersion verifyArtifactFile
  rw [h]

/-- A journal that was read and then written again is read again. -/
theorem load_restartPending (hload : load lib s = .ok (some record)) (hrole : t.role = s.role)
    (hjournal : t.journal .transaction = some (restartPending record))
    (hfits : lib.journalLength (restartPending record) ≤ MAX_MANIFEST_BYTES) :
    load lib t = .ok (some (restartPending record)) := by
  have hold := journal_of_load hload
  unfold load at hload ⊢
  rw [hold] at hload
  rw [hjournal]
  obtain ⟨_, hcheck, -⟩ := bind_eq_ok.mp hload
  obtain ⟨_, _, hcheck⟩ := bind_eq_ok.mp hcheck
  have hcheck' : checkJournal lib t.role (restartPending record) = .ok () := by
    refine bind_eq_ok.mpr ⟨(), rejectIf_eq_ok.mpr ?_, ?_⟩
    · exact decide_eq_false (Nat.not_lt.mpr hfits)
    · rw [hrole]
      exact hcheck
  exact bind_eq_ok.mpr ⟨(), hcheck', rfl⟩

/-- The checks pass again in whatever state an activation was cut. -/
theorem Activating.checks {schema wire : Nat} (h : Activating lib s record t)
    (hchecks : activateChecks lib record schema wire s = .ok true) :
    ∃ record', (record' = record ∨ record' = restartPending record) ∧
      load lib t = .ok (some record') ∧ activateChecks lib record' schema wire t = .ok true := by
  obtain ⟨hload, ⟨floor, hfloor, hverify⟩, ⟨current, htarget, hanchored⟩, hterminal⟩ :=
    activateChecks_eq_true.mp hchecks
  have hfloor' : ∃ floor, acceptedRollbackFloor lib t.accepted = .ok floor ∧
      verifyInstalledVersion lib record.selectedVersion schema wire floor t = .ok () := by
    refine ⟨floor, ?_, ?_⟩
    · rw [h.accepted]
      exact hfloor
    · rw [verifyInstalledVersion_congr h.versions]
      exact hverify
  have htarget' : ∃ current, targetVersion lib (t.link .current) = .ok current ∧
      (current = record.previousVersion ∨ current = record.manifest.version) := by
    rcases h.current with hlink | hlink
    · exact ⟨current, hlink ▸ htarget, hanchored⟩
    · refine ⟨record.selectedVersion, ?_, selectedVersion_cases record⟩
      rw [hlink]
      exact if_pos (canonical_of_verify hverify)
  rcases h.journal with hjournal | ⟨hjournal, -, hfits⟩
  · have hload' : load lib t = .ok (some record) := by
      unfold load at hload ⊢
      rw [hjournal, h.role]
      exact hload
    exact ⟨record, .inl rfl, hload', activateChecks_eq_true.mpr ⟨hload', hfloor', htarget', hterminal⟩⟩
  · have hload' := load_restartPending hload h.role hjournal hfits
    exact ⟨restartPending record, .inr rfl, hload',
      activateChecks_eq_true.mpr ⟨hload', hfloor', htarget', rfl⟩⟩

/-- From wherever an activation was cut, another heads for the same links. -/
theorem Activating.switched_eq (h : Activating lib s record t) {record' : UpdateTransaction}
    (hrecord : record' = record ∨ record' = restartPending record) :
    switched record' t = switched record s := by
  have hselected : record'.selectedVersion = record.selectedVersion := by
    rcases hrecord with rfl | rfl <;> rfl
  have hretained : record'.retainedVersion = record.retainedVersion := by
    rcases hrecord with rfl | rfl <;> rfl
  funext name
  unfold switched
  rw [hselected, hretained]
  cases name with
  | current => rw [Function.update_self, Function.update_self]
  | previous =>
      have hne : LinkName.previous ≠ LinkName.current := by decide
      rw [Function.update_of_ne hne, Function.update_of_ne hne, Function.update_self,
        Function.update_self]

theorem Activating.trans {u : Installation} (h : Activating lib s record t)
    {record' : UpdateTransaction} (hrecord : record' = record ∨ record' = restartPending record)
    (h' : Activating lib t record' u) (hlink : u.link = switched record' t) :
    Activating lib s record u := by
  have hswitched : u.link = switched record s := hlink.trans (h.switched_eq hrecord)
  have hrestart : restartPending record' = restartPending record := by
    rcases hrecord with rfl | rfl <;> rfl
  refine ⟨h'.role.trans h.role, h'.accepted.trans h.accepted, h'.versions.trans h.versions,
    .inr (.inr hswitched), ?_, h'.resolved⟩
  rcases h'.journal with hjournal | ⟨hjournal, -, hfits⟩
  · rcases h.journal with hjournal' | ⟨hjournal', -, hfits⟩
    · exact .inl (hjournal.trans hjournal')
    · exact .inr ⟨hjournal.trans hjournal', hswitched, hfits⟩
  · rw [hrestart] at hjournal hfits
    exact .inr ⟨hjournal, hswitched, hfits⟩

/-- One more activation, by any process, switches both links. -/
theorem Activating.resumeOnce {schema wire : Nat} (hs : Sound s)
    (hchecks : activateChecks lib record schema wire s = .ok true) (h : Activating lib s record t)
    (pid : Nat) :
    Activating lib s record (resumeOnce lib schema wire t pid) ∧
      (resumeOnce lib schema wire t pid).link = switched record s := by
  have ht : Sound t := h.sound hs (journal_of_activateChecks hchecks)
  obtain ⟨record', hrecord, hload, hchecks'⟩ := h.checks hchecks
  have hensures := ensures_activate pid ht.resolved (ht.staged record' (journal_of_load hload))
    hchecks'
  have hrun : Updater.resumeOnce lib schema wire t pid =
      (activate lib pid record' schema wire).run t := by
    unfold Updater.resumeOnce
    rw [hload]
  rw [hrun]
  exact ⟨h.trans hrecord hensures.run hensures.2, hensures.2.trans (h.switched_eq hrecord)⟩

theorem Activating.resume {schema wire : Nat} (hs : Sound s)
    (hchecks : activateChecks lib record schema wire s = .ok true) (h : Activating lib s record t)
    (pids : List Nat) (hpids : pids ≠ []) :
    (resume lib schema wire pids t).link = switched record s := by
  induction pids generalizing t with
  | nil => exact absurd rfl hpids
  | cons pid pids ih =>
      obtain ⟨hagain, hlink⟩ := h.resumeOnce hs hchecks pid
      cases pids with
      | nil => exact hlink
      | cons pid' pids => exact ih hagain (List.cons_ne_nil pid' pids)

/-- An activation does not change what is updated. -/
theorem Activating.intent (h : Activating lib s record t)
    (hold : s.journal .transaction = some record) :
    ∃ record', t.journal .transaction = some record' ∧ record'.manifest = record.manifest ∧
      record'.previousVersion = record.previousVersion ∧ record'.direction = record.direction := by
  rcases h.journal_cases hold with hjournal | hjournal
  · exact ⟨record, hjournal, rfl, rfl, rfl⟩
  · exact ⟨restartPending record, hjournal, rfl, rfl, rfl⟩

theorem isUtf8_oldVersion : Types.isUtf8 [49, 46, 48, 46, 48] = true := by decide +kernel

theorem isUtf8_newVersion : Types.isUtf8 [49, 46, 49, 46, 48] = true := by decide +kernel

theorem isUtf8_https : Types.isUtf8 [104, 116, 116, 112, 115, 58, 47, 47] = true := by decide +kernel

theorem isUtf8_digest : Types.isUtf8 (List.replicate 64 48) = true := by decide +kernel

def oldVersion : Text := ⟨[49, 46, 48, 46, 48], isUtf8_oldVersion⟩

def newVersion : Text := ⟨[49, 46, 49, 46, 48], isUtf8_newVersion⟩

/-- Sixty-four zeros. -/
def zeroDigest : Text := ⟨List.replicate 64 48, isUtf8_digest⟩

def binary : Bytes := [127, 69, 76, 70]

def binaryArtifact : ReleaseArtifact where
  platform := oldVersion
  architecture := oldVersion
  kind := .binary
  name := oldVersion
  url := ⟨[104, 116, 116, 112, 115, 58, 47, 47], isUtf8_https⟩
  sha256 := zeroDigest
  size := 4

def newManifest : ReleaseManifest where
  schemaVersion := 1
  sequence := 1
  version := newVersion
  channel := .stable
  publishedAt := 0
  expiresAt := 10
  schemaCompatibility := ⟨1, 1⟩
  wireCompatibility := ⟨1, 1⟩
  rollbackFloor := oldVersion
  artifacts := [binaryArtifact]

def installing (stage : UpdateStage) : UpdateTransaction where
  format := 1
  role := .peer
  manifest := newManifest
  artifact := binaryArtifact
  previousVersion := oldVersion
  healthUrl := emptyText
  direction := .install
  stage := stage
  approvedPreview := none

def rollingBack : UpdateTransaction := { installing .prepared with direction := .rollback }

/-- The update, with an activation that is cut after the first link and then made again. -/
def updating : List Call :=
  [ { op := .acceptManifest newManifest 5 oldVersion 1 1, pid := 7, crash := none },
    { op := .prepare binary binaryArtifact newManifest ⟨emptyText, false, none⟩, pid := 7, crash := none },
    { op := .activate (installing .prepared) 1 1, pid := 7, crash := some 3 },
    { op := .activate (installing .prepared) 1 1, pid := 8, crash := none } ]

end Peerward.Updater
