import Peerward.Lib.Run
import Peerward.Updater.Transaction

/-!
# What an operation leaves

Every operation of the updater, cut after any number of its writes. `Activating` says what an activation
can leave, `Effect` what any other operation can; the invariant and the properties of whole runs follow
from the two. Only `activate` touches the links, and where it was cut does not matter: the links it is
heading for are in the journal.
-/

namespace Peerward.Updater

open Peerward.Lib Durable
open Peerward.Types (Text)

/-! ## Operations -/

inductive Op where
  | acceptManifest (manifest : ReleaseManifest) (now : Nat) (currentVersion : Text)
      (schemaVersion wireMajor : Nat)
  | prepare (bytes : Bytes) (artifact : ReleaseArtifact) (manifest : ReleaseManifest)
      (options : TransactionOptions)
  | bindPreview (record : UpdateTransaction) (digest : Text)
  | activate (record : UpdateTransaction) (schema wire : Nat)
  | requestRollback (record : UpdateTransaction) (schema wire : Nat)
  | recordFailure (record : UpdateTransaction)
  | recordReady (record : UpdateTransaction)

/-- An operation of a process, which may die after some writes. -/
structure Call where
  op : Op
  pid : Nat
  crash : Option Nat

variable (lib : Libraries)

/-- The writes of an operation. -/
def Op.writes (pid : Nat) (s : Installation) : Op → List Write
  | .acceptManifest manifest now currentVersion schemaVersion wireMajor =>
    (Updater.acceptManifest lib pid manifest now currentVersion schemaVersion wireMajor s).1
  | .prepare bytes artifact manifest options =>
    (Updater.prepareApproved lib pid bytes artifact manifest options s).1
  | .bindPreview record digest => (Updater.bindPreview lib pid record digest s).1
  | .activate record schema wire => (Updater.activate lib pid record schema wire s).1
  | .requestRollback record schema wire => (Updater.requestRollback lib pid record schema wire s).1
  | .recordFailure record => (Updater.recordFailure lib pid record s).1
  | .recordReady record => (Updater.recordReady lib pid record s).1

/-- The whole of an operation. -/
def complete (pid : Nat) (op : Op) (s : Installation) : Installation :=
  writes s (op.writes lib pid s)

/-- An operation cut after `k` writes. -/
def interrupt (pid : Nat) (op : Op) (k : Nat) (s : Installation) : Installation :=
  writes s ((op.writes lib pid s).take k)

def step (s : Installation) (call : Call) : Installation :=
  match call.crash with
  | none => complete lib call.pid call.op s
  | some k => interrupt lib call.pid call.op k s

def isPrepare : Op → Bool
  | .prepare .. => true
  | _ => false

def isActivate : Op → Bool
  | .activate .. => true
  | _ => false

/-- A call that may replace an unfinished journal. -/
def Repairs (record : UpdateTransaction) (call : Call) : Prop :=
  record.stage = .recoveryRequired ∧
    ∃ bytes artifact manifest options, call.op = .prepare bytes artifact manifest options ∧
      options.repair = true

/-! ## Saving a journal

A journal is written to a temporary file and renamed, so a cut leaves the old one or the new one, and
perhaps the temporary file.
-/

variable {lib} {s t : Installation} {record : UpdateTransaction} {pid : Nat}

/-- Two states that differ in their temporary files only. -/
structure Settled (s t : Installation) : Prop where
  role : t.role = s.role
  accepted : t.accepted = s.accepted
  versions : t.versions = s.versions
  link : t.link = s.link
  journal : t.journal = s.journal
  linkTemporaries : t.linkTemporaries = s.linkTemporaries

theorem Settled.refl (s : Installation) : Settled s s := ⟨rfl, rfl, rfl, rfl, rfl, rfl⟩

/-- The state with a journal written. -/
def journaled (s : Installation) (file : JournalFile) (record : UpdateTransaction) : Installation :=
  { s with journal := Function.update s.journal file (some record) }

theorem ensures_uniqueSibling {file : Nat → Temporary} {C : Installation → Prop}
    {Q : Except UpdateError Temporary → Installation → Prop} (hC : C s) (hQ : ∀ r, Q r s) :
    Ensures s (uniqueSibling file) C Q := ensures_ask hC (hQ _)

theorem ensures_saveAt (lib : Libraries) (s : Installation) (pid : Nat) (file : JournalFile)
    (record : UpdateTransaction) :
    Ensures s (saveAt lib pid file record)
      (fun t => Settled s t ∨
        Settled (journaled s file record) t ∧ lib.journalLength record ≤ MAX_MANIFEST_BYTES)
      (fun r t => match r with
        | .ok () => Settled (journaled s file record) t ∧ lib.journalLength record ≤ MAX_MANIFEST_BYTES
        | .error _ => Settled s t) := by
  unfold saveAt
  refine ensures_bind (ensures_ask (.inl (.refl s)) ?_)
  cases hlength : decide (MAX_MANIFEST_BYTES < lib.journalLength record) with
  | true => exact .refl s
  | false =>
      have hfits : lib.journalLength record ≤ MAX_MANIFEST_BYTES :=
        Nat.not_lt.mp (of_decide_eq_false hlength)
      show Ensures s _ _ _
      refine ensures_bind (ensures_uniqueSibling (.inl (.refl s)) fun r => ?_)
      cases r with
      | error error => exact .refl s
      | ok temporary =>
          have hcreated : Settled s (Disk.write s (.createFile temporary)) :=
            ⟨rfl, rfl, rfl, rfl, rfl, rfl⟩
          have hrenamed : Settled (journaled s file record)
              (Disk.write (Disk.write s (.createFile temporary))
                (.renameJournal temporary file record)) := ⟨rfl, rfl, rfl, rfl, rfl, rfl⟩
          refine ensures_bind (ensures_put (.inl (.refl s)) (.inl hcreated) ?_)
          exact ensures_put (.inl hcreated) (.inr ⟨hrenamed, hfits⟩) ⟨hrenamed, hfits⟩

/-! ## Switching a link

A link is switched by a rename over it. A temporary link that was left behind is taken out of the way
first.
-/

/-- Temporary links lead to installed binaries. -/
def Resolved (s : Installation) : Prop :=
  ∀ link ∈ s.linkTemporaries, ∃ version, link.target = .release version ∧
    (s.versions version).binary ≠ none

/-- One link is switched, or about to be. -/
structure Relinked (s : Installation) (name : LinkName) (target : Target) (t : Installation) : Prop where
  role : t.role = s.role
  accepted : t.accepted = s.accepted
  versions : t.versions = s.versions
  journal : t.journal = s.journal
  link : t.link = s.link ∨ t.link = Function.update s.link name (some target)
  linkTemporaries : ∀ link ∈ t.linkTemporaries, link ∈ s.linkTemporaries ∨ link.target = target

theorem Relinked.refl (s : Installation) (name : LinkName) (target : Target) :
    Relinked s name target s := ⟨rfl, rfl, rfl, rfl, .inl rfl, fun _ h => .inl h⟩

/-- A temporary link that is there is found. -/
theorem linkTaken_eq (h : Resolved s) (name : LinkName) (pid : Nat) :
    linkTaken name pid s = linkExists name pid s := by
  unfold linkTaken linkExists
  rw [Bool.eq_iff_iff, List.any_eq_true, List.any_eq_true]
  refine exists_congr fun link => and_congr_right fun hmem => ?_
  obtain ⟨version, htarget, hbinary⟩ := h link hmem
  rw [htarget]
  dsimp only
  rw [Option.isSome_iff_ne_none.mpr hbinary, Bool.and_true]

theorem linkTaken_dropLink (s : Installation) (name : LinkName) (pid : Nat) :
    linkTaken name pid (s.dropLink name pid) = false := by
  unfold linkTaken Installation.dropLink
  rw [List.any_eq_false]
  intro link hmem
  have hkept := (List.mem_filter.mp hmem).2
  simp only [Bool.or_eq_true, decide_eq_true_eq] at hkept
  simp only [Bool.and_eq_true, decide_eq_true_eq, not_and]
  intro hname hpid
  rcases hkept with hname' | hpid'
  · exact hname' hname
  · exact hpid' hpid

theorem mem_of_mem_renameLink {link placed : LinkTemporary}
    (h : link ∈ (Disk.write s (.renameLink placed)).linkTemporaries) : link ∈ s.linkTemporaries := by
  replace h : link ∈ s.linkTemporaries.filter _ := h
  exact List.mem_of_mem_filter h

theorem ensures_replaceSymlink (h : Resolved s) (pid : Nat) (name : LinkName) (target : Target) :
    Ensures s (replaceSymlink pid name target) (Relinked s name target) fun r t =>
      r = .ok () ∧ Relinked s name target t ∧ t.link = Function.update s.link name (some target) := by
  have hplaced : ∀ s', Relinked s name target s' → s'.link = s.link →
      linkTaken name pid s' = false →
      Ensures s' (placeSymlink pid name target) (Relinked s name target) fun r t =>
        r = .ok () ∧ Relinked s name target t ∧ t.link = Function.update s.link name (some target) := by
    intro s' hs' hlink hfree
    unfold placeSymlink
    refine ensures_bind (ensures_ask hs' ?_)
    rw [hfree]
    show Ensures s' _ _ _
    have hcreated : Relinked s name target (Disk.write s' (.createLink { name, pid, target })) := by
      refine ⟨hs'.role, hs'.accepted, hs'.versions, hs'.journal, hs'.link, fun link hmem => ?_⟩
      rcases List.mem_cons.mp hmem with rfl | hold
      · exact .inr rfl
      · exact hs'.linkTemporaries link hold
    have hrenamed : Relinked s name target (Disk.write
        (Disk.write s' (.createLink { name, pid, target })) (.renameLink { name, pid, target })) := by
      refine ⟨hs'.role, hs'.accepted, hs'.versions, hs'.journal, .inr ?_, fun link hmem => ?_⟩
      · show Function.update s'.link name (some target) = _
        rw [hlink]
      · exact hcreated.linkTemporaries link (mem_of_mem_renameLink hmem)
    refine ensures_bind (ensures_put hs' hcreated ?_)
    refine ensures_put hcreated hrenamed ⟨rfl, hrenamed, ?_⟩
    show Function.update s'.link name (some target) = _
    rw [hlink]
  unfold replaceSymlink
  refine ensures_bind (ensures_ask (.refl s name target) ?_)
  cases hstale : linkExists name pid s with
  | false =>
      rw [← linkTaken_eq h] at hstale
      exact hplaced s (.refl s name target) rfl hstale
  | true =>
      have hdropped : Relinked s name target (Disk.write s (.removeLink name pid)) :=
        ⟨rfl, rfl, rfl, rfl, .inl rfl, fun link hmem => .inl (List.mem_of_mem_filter hmem)⟩
      show Ensures s (put (.removeLink name pid) >>= fun _ => _) _ _
      exact ensures_bind (ensures_put (.refl s name target) hdropped
        (hplaced _ hdropped rfl (linkTaken_dropLink s name pid)))

/-! ## What an activation leaves

`Activating` lists the states between the first and the last write of an activation.
-/

/-- The links once `activate` has switched both. -/
def switched (record : UpdateTransaction) (s : Installation) : LinkName → Option Target :=
  Function.update (Function.update s.link .previous (some (.release record.retainedVersion)))
    .current (some (.release record.selectedVersion))

/-- The journal `activate` writes. -/
def restartPending (record : UpdateTransaction) : UpdateTransaction :=
  { record with stage := .restartPending }

/-- Both versions of a journal are on disk. -/
def Staged (s : Installation) (record : UpdateTransaction) : Prop :=
  (s.versions record.previousVersion).binary ≠ none ∧
    (s.versions record.manifest.version).binary ≠ none

theorem Staged.selected (h : Staged s record) :
    (s.versions record.selectedVersion).binary ≠ none := by
  unfold UpdateTransaction.selectedVersion
  split
  · exact h.2
  · exact h.1

theorem Staged.retained (h : Staged s record) :
    (s.versions record.retainedVersion).binary ≠ none := by
  unfold UpdateTransaction.retainedVersion
  split
  · exact h.1
  · exact h.2

/-- An activation, cut anywhere or not at all. -/
structure Activating (lib : Libraries) (s : Installation) (record : UpdateTransaction)
    (t : Installation) : Prop where
  role : t.role = s.role
  accepted : t.accepted = s.accepted
  versions : t.versions = s.versions
  links : t.link = s.link ∨
    t.link = Function.update s.link .previous (some (.release record.retainedVersion)) ∨
    t.link = switched record s
  journal : t.journal .transaction = s.journal .transaction ∨
    t.journal .transaction = some (restartPending record) ∧ t.link = switched record s ∧
      lib.journalLength (restartPending record) ≤ MAX_MANIFEST_BYTES
  resolved : Resolved t

theorem Relinked.resolved {name : LinkName} {version : Text} (h : Resolved s)
    (hbinary : (s.versions version).binary ≠ none) (ht : Relinked s name (.release version) t) :
    Resolved t := by
  intro link hmem
  rw [ht.versions]
  rcases ht.linkTemporaries link hmem with hold | hnew
  · exact h link hold
  · exact ⟨version, hnew, hbinary⟩

theorem Activating.refl (lib : Libraries) (record : UpdateTransaction) (h : Resolved s) :
    Activating lib s record s := ⟨rfl, rfl, rfl, .inl rfl, .inl rfl, h⟩

variable (pid) in
theorem ensures_activate (hs : Resolved s) (hstaged : Staged s record) {schema wire : Nat}
    (hchecks : activateChecks lib record schema wire s = .ok true) :
    Ensures s (activate lib pid record schema wire) (Activating lib s record)
      fun _ t => t.link = switched record s := by
  unfold activate
  refine ensures_bind (ensures_ask (.refl lib record hs) ?_)
  rw [hchecks]
  show Ensures s (replaceSymlink pid .previous _ >>= fun _ => _) _ _
  -- the previous link
  refine ensures_bind ((ensures_replaceSymlink hs pid .previous _).mono (fun t ht => ?_) ?_)
  · refine ⟨ht.role, ht.accepted, ht.versions, ?_, .inl (congrFun ht.journal _),
      ht.resolved hs hstaged.retained⟩
    exact ht.link.elim .inl (fun h => .inr (.inl h))
  rintro _ t ⟨rfl, ht, hlink⟩
  have htresolved : Resolved t := ht.resolved hs hstaged.retained
  have htstaged : (t.versions record.selectedVersion).binary ≠ none := by
    rw [ht.versions]
    exact hstaged.selected
  -- the current link, which leads to the selected version from here on
  refine ensures_bind ((ensures_replaceSymlink htresolved pid .current _).mono (fun u hu => ?_) ?_)
  · refine ⟨hu.role.trans ht.role, hu.accepted.trans ht.accepted, hu.versions.trans ht.versions,
      ?_, .inl (congrFun (hu.journal.trans ht.journal) _), hu.resolved htresolved htstaged⟩
    rcases hu.link with h | h
    · exact .inr (.inl (h.trans hlink))
    · exact .inr (.inr (by rw [h, hlink, switched]))
  rintro _ u ⟨rfl, hu, hulink⟩
  have hswitched : u.link = switched record s := by rw [hulink, hlink, switched]
  have huresolved : Resolved u := hu.resolved htresolved htstaged
  -- and the journal, which is written or is not
  have hunsaved : ∀ v, Settled u v → Activating lib s record v := by
    intro v hv
    refine ⟨hv.role.trans (hu.role.trans ht.role), hv.accepted.trans (hu.accepted.trans ht.accepted),
      hv.versions.trans (hu.versions.trans ht.versions), .inr (.inr (hv.link.trans hswitched)),
      .inl (congrFun (hv.journal.trans (hu.journal.trans ht.journal)) _), ?_⟩
    unfold Resolved
    rw [hv.linkTemporaries, hv.versions]
    exact huresolved
  have hsaved : ∀ v, Settled (journaled u .transaction (restartPending record)) v →
      lib.journalLength (restartPending record) ≤ MAX_MANIFEST_BYTES → Activating lib s record v := by
    intro v hv hfits
    have hvlink : v.link = switched record s := hv.link.trans hswitched
    refine ⟨hv.role.trans (hu.role.trans ht.role), hv.accepted.trans (hu.accepted.trans ht.accepted),
      hv.versions.trans (hu.versions.trans ht.versions), .inr (.inr hvlink),
      .inr ⟨?_, hvlink, hfits⟩, ?_⟩
    · rw [hv.journal]
      exact Function.update_self JournalFile.transaction _ u.journal
    · unfold Resolved
      rw [hv.linkTemporaries, hv.versions]
      exact huresolved
  refine ensures_bind ((ensures_saveAt lib u pid .transaction (restartPending record)).mono
    (fun v hv => ?_) fun r v hv => ?_)
  · exact hv.elim (hunsaved v) fun h => hsaved v h.1 h.2
  cases r with
  | error error => exact hv.link.trans hswitched
  | ok _ => exact ensures_pure (hsaved v hv.1 hv.2) (hv.1.link.trans hswitched)

/-! ## What any other operation leaves

The others leave the links alone. What they do to the journal and to the binaries is `Effect`.
-/

/-- The links stay, and so do the binaries there are. -/
structure Quiet (s t : Installation) : Prop where
  role : t.role = s.role
  link : t.link = s.link
  linkTemporaries : t.linkTemporaries = s.linkTemporaries
  binary : ∀ version, (s.versions version).binary ≠ none → (t.versions version).binary ≠ none

theorem Quiet.refl (s : Installation) : Quiet s s := ⟨rfl, rfl, rfl, fun _ h => h⟩

theorem Quiet.trans {u : Installation} (h : Quiet s t) (h' : Quiet t u) : Quiet s u :=
  ⟨h'.role.trans h.role, h'.link.trans h.link, h'.linkTemporaries.trans h.linkTemporaries,
    fun version hbinary => h'.binary version (h.binary version hbinary)⟩

theorem Settled.quiet (h : Settled s t) : Quiet s t := by
  refine ⟨h.role, h.link, h.linkTemporaries, fun version hbinary => ?_⟩
  rw [h.versions]
  exact hbinary

/-- What an operation other than `activate` does to the journal. -/
inductive JournalStep (op : Op) (s t : Installation) : Prop where
  | same (journal : t.journal .transaction = s.journal .transaction)
  | rewritten (old new : UpdateTransaction) (held : s.journal .transaction = some old)
      (journal : t.journal .transaction = some new) (manifest : new.manifest = old.manifest)
      (previousVersion : new.previousVersion = old.previousVersion)
      (direction : new.direction = old.direction ∨ new.direction = .rollback)
  | prepared (new : UpdateTransaction) (journal : t.journal .transaction = some new)
      (prepares : isPrepare op = true)
      (current : s.link .current = some (.release new.previousVersion))
      (staged : (t.versions new.manifest.version).binary ≠ none)
      (replaced : ∀ old, s.journal .transaction = some old → old.isTerminal = false →
        ∀ pid crash, Repairs old { op, pid, crash })

/-- Everything an operation other than `activate` may leave. -/
structure Effect (op : Op) (s t : Installation) : Prop where
  quiet : Quiet s t
  journal : JournalStep op s t

variable {op : Op}

theorem Effect.refl (op : Op) (s : Installation) : Effect op s s := ⟨.refl s, .same rfl⟩

theorem Settled.effect (op : Op) (h : Settled s t) : Effect op s t :=
  ⟨h.quiet, .same (congrFun h.journal _)⟩

theorem journal_of_load {journal : Option UpdateTransaction} (h : load lib s = .ok journal) :
    s.journal .transaction = journal := by
  unfold load at h
  split at h
  · next hnone => exact hnone.trans (Except.ok.inj h)
  · next held hheld =>
      obtain ⟨_, _, hjournal⟩ := bind_eq_ok.mp h
      exact hheld.trans (Except.ok.inj hjournal)

theorem load_of_requireCurrentRecord (h : requireCurrentRecord lib record s = .ok ()) :
    load lib s = .ok (some record) := by
  obtain ⟨journal, hload, hjournal⟩ := bind_eq_ok.mp h
  have hsome : journal = some record := Decidable.not_not.mp
    (of_decide_eq_false (rejectIf_eq_ok.mp hjournal))
  rw [← hsome]
  exact hload

/-- The journal is written again, for the same update. -/
theorem ensures_save {old new : UpdateTransaction} (hold : s.journal .transaction = some old)
    (hmanifest : new.manifest = old.manifest)
    (hprevious : new.previousVersion = old.previousVersion)
    (hdirection : new.direction = old.direction ∨ new.direction = .rollback) :
    Ensures s (save lib pid new) (Effect op s) fun _ t => Effect op s t := by
  have hsaved : ∀ t, Settled (journaled s .transaction new) t → Effect op s t := by
    intro t ht
    refine ⟨⟨ht.role, ht.link, ht.linkTemporaries, fun version h => ?_⟩, ?_⟩
    · rw [ht.versions]
      exact h
    · refine .rewritten old new hold ?_ hmanifest hprevious hdirection
      rw [ht.journal]
      exact Function.update_self JournalFile.transaction _ s.journal
  refine (ensures_saveAt lib s pid .transaction new).mono (fun t ht => ?_) fun r t ht => ?_
  · exact ht.elim (·.effect op) (hsaved t ·.1)
  · cases r with
    | error _ => exact Settled.effect op ht
    | ok _ => exact hsaved t ht.1

/-- A program that starts with `requireCurrentRecord` does nothing unless the handle is the journal. -/
theorem ensures_current {α : Type} {m : Program α}
    (hm : s.journal .transaction = some record →
      Ensures s m (Effect op s) fun _ t => Effect op s t) :
    Ensures s (ask (requireCurrentRecord lib record) >>= fun _ => m) (Effect op s)
      fun _ t => Effect op s t := by
  refine ensures_bind (ensures_ask (.refl op s) ?_)
  cases hcurrent : requireCurrentRecord lib record s with
  | error _ => exact .refl op s
  | ok _ => exact hm (journal_of_load (load_of_requireCurrentRecord hcurrent))

/-- Saving is the last step; what is returned does not matter. -/
theorem ensures_save_return {α : Type} {a : α} {old new : UpdateTransaction}
    (hold : s.journal .transaction = some old) (hmanifest : new.manifest = old.manifest)
    (hprevious : new.previousVersion = old.previousVersion)
    (hdirection : new.direction = old.direction ∨ new.direction = .rollback) :
    Ensures s (save lib pid new >>= fun _ => (pure a : Program α)) (Effect op s)
      fun _ t => Effect op s t := by
  refine ensures_bind ((ensures_save hold hmanifest hprevious hdirection).mono (fun _ h => h) ?_)
  intro r t ht
  cases r with
  | error _ => exact ht
  | ok _ => exact ensures_pure ht ht

theorem ensures_bindPreview (digest : Text) :
    Ensures s (bindPreview lib pid record digest) (Effect op s) fun _ t => Effect op s t := by
  unfold bindPreview
  refine ensures_current fun hold => ?_
  split
  · exact ensures_fail (.refl op s) (.refl op s)
  split
  · exact ensures_pure (.refl op s) (.refl op s)
  split
  · exact ensures_fail (.refl op s) (.refl op s)
  · exact ensures_save_return hold rfl rfl (.inl rfl)

theorem ensures_requestRollback (schema wire : Nat) :
    Ensures s (requestRollback lib pid record schema wire) (Effect op s) fun _ t => Effect op s t := by
  unfold requestRollback
  refine ensures_current fun hold => ?_
  split
  · exact ensures_fail (.refl op s) (.refl op s)
  split
  · exact ensures_pure (.refl op s) (.refl op s)
  refine ensures_bind (ensures_ask (.refl op s) ?_)
  split
  · exact .refl op s
  · exact ensures_save_return hold rfl rfl (.inr rfl)

theorem ensures_recordFailure :
    Ensures s (recordFailure lib pid record) (Effect op s) fun _ t => Effect op s t := by
  unfold recordFailure
  refine ensures_current fun hold => ?_
  split
  · exact ensures_fail (.refl op s) (.refl op s)
  · exact ensures_save_return hold rfl rfl (.inl rfl)

theorem ensures_recordReady :
    Ensures s (recordReady lib pid record) (Effect op s) fun _ t => Effect op s t := by
  unfold recordReady
  refine ensures_current fun hold => ?_
  split
  · exact ensures_fail (.refl op s) (.refl op s)
  refine ensures_bind (ensures_ask (.refl op s) ?_)
  split
  · exact .refl op s
  · exact ensures_save_return hold rfl rfl (.inl rfl)

/-! ### Accepting and preparing -/

/-- Nothing but files beside the journal and the links changes. -/
structure Aside (s t : Installation) : Prop where
  quiet : Quiet s t
  journal : t.journal = s.journal

theorem Aside.refl (s : Installation) : Aside s s := ⟨.refl s, rfl⟩

theorem Aside.trans {u : Installation} (h : Aside s t) (h' : Aside t u) : Aside s u :=
  ⟨h.quiet.trans h'.quiet, h'.journal.trans h.journal⟩

theorem Aside.effect (op : Op) (h : Aside s t) : Effect op s t :=
  ⟨h.quiet, .same (congrFun h.journal _)⟩

theorem ensures_acceptManifest (manifest : ReleaseManifest) (now : Nat) (currentVersion : Text)
    (schemaVersion wireMajor : Nat) :
    Ensures s (acceptManifest lib pid manifest now currentVersion schemaVersion wireMajor) (Aside s)
      fun _ t => Aside s t := by
  have hsame : ∀ t : Installation, t.role = s.role → t.link = s.link →
      t.linkTemporaries = s.linkTemporaries → t.versions = s.versions → t.journal = s.journal →
      Aside s t := by
    intro t hrole hlink htemporaries hversions hjournal
    refine ⟨⟨hrole, hlink, htemporaries, fun version h => ?_⟩, hjournal⟩
    rw [hversions]
    exact h
  unfold acceptManifest
  refine ensures_bind (ensures_ask (.refl s) ?_)
  split
  · exact .refl s
  refine ensures_bind (ensures_ask (.refl s) ?_)
  split
  · exact .refl s
  split
  · exact ensures_pure (.refl s) (.refl s)
  unfold writeUpdateState
  refine ensures_bind (ensures_uniqueSibling (.refl s) fun r => ?_)
  cases r with
  | error _ => exact .refl s
  | ok temporary =>
      have hcreated : Aside s (Disk.write s (.createFile temporary)) :=
        hsame _ rfl rfl rfl rfl rfl
      refine ensures_bind (ensures_put (.refl s) hcreated ?_)
      exact ensures_put hcreated (hsame _ rfl rfl rfl rfl rfl) (hsame _ rfl rfl rfl rfl rfl)

/-- A version is written, or was there. -/
theorem ensures_stageBinary (bytes : Bytes) (artifact : ReleaseArtifact) (version : Text) :
    Ensures s (stageBinary lib pid bytes artifact version) (Aside s) fun r t =>
      Aside s t ∧ (r = .ok () → (t.versions version).binary ≠ none) := by
  unfold stageBinary
  refine ensures_bind (ensures_ask (.refl s) ?_)
  show Ensures s (if _ then _ else _) _ _
  split
  · next hpresent =>
      exact ensures_ask (.refl s) ⟨.refl s, fun _ => Option.isSome_iff_ne_none.mp hpresent⟩
  refine ensures_bind (ensures_ask (.refl s) ?_)
  show Ensures s (if _ then _ else _) _ _
  split
  · have hremoved : Aside s (Disk.write s (.removeFile (.binary version pid))) :=
      ⟨⟨rfl, rfl, rfl, fun _ h => h⟩, rfl⟩
    refine ensures_bind (ensures_put (.refl s) hremoved ?_)
    exact ensures_fail hremoved ⟨hremoved, nofun⟩
  · have hcreated : Aside s (Disk.write s (.createFile (.binary version pid))) :=
      ⟨⟨rfl, rfl, rfl, fun _ h => h⟩, rfl⟩
    have hrenamed : Aside s (Disk.write (Disk.write s (.createFile (.binary version pid)))
        (.renameBinary (.binary version pid) version bytes)) := by
      refine ⟨⟨rfl, rfl, rfl, fun other h => ?_⟩, rfl⟩
      show (Function.update s.versions version _ other).binary ≠ none
      by_cases hother : other = version
      · rw [hother, Function.update_self]
        exact Option.some_ne_none _
      · rw [Function.update_of_ne hother]
        exact h
    refine ensures_bind (ensures_put (.refl s) hcreated ?_)
    refine ensures_put hcreated hrenamed ⟨hrenamed, fun _ => ?_⟩
    show (Function.update s.versions version _ version).binary ≠ none
    rw [Function.update_self]
    exact Option.some_ne_none _

theorem ensures_stageCompatibility (metadata : InstalledCompatibility) :
    Ensures s (stageCompatibility lib pid metadata) (Aside s) fun _ t => Aside s t := by
  unfold stageCompatibility
  refine ensures_bind (ensures_ask (.refl s) ?_)
  dsimp only
  split
  · split
    · exact ensures_fail (.refl s) (.refl s)
    split
    · exact ensures_fail (.refl s) (.refl s)
    · exact ensures_pure (.refl s) (.refl s)
  refine ensures_bind (ensures_uniqueSibling (.refl s) fun r => ?_)
  cases r with
  | error _ => exact .refl s
  | ok temporary =>
      have hcreated : Aside s (Disk.write s (.createFile temporary)) :=
        ⟨⟨rfl, rfl, rfl, fun _ h => h⟩, rfl⟩
      have hrenamed : Aside s (Disk.write (Disk.write s (.createFile temporary))
          (.renameCompatibility temporary metadata.version metadata)) := by
        refine ⟨⟨rfl, rfl, rfl, fun other h => ?_⟩, rfl⟩
        show (Function.update s.versions metadata.version _ other).binary ≠ none
        by_cases hother : other = metadata.version
        · rw [hother, Function.update_self]
          exact hother ▸ h
        · rw [Function.update_of_ne hother]
          exact h
      refine ensures_bind (ensures_put (.refl s) hcreated ?_)
      exact ensures_put hcreated hrenamed hrenamed

theorem ensures_stageVersioned (bytes : Bytes) (artifact : ReleaseArtifact) (version : Text)
    (manifest : ReleaseManifest) :
    Ensures s (stageVersioned lib pid bytes artifact version (some manifest)) (Aside s) fun r t =>
      Aside s t ∧ (r = .ok () → (t.versions version).binary ≠ none) := by
  unfold stageVersioned
  refine ensures_bind (ensures_ask (.refl s) ?_)
  split
  · exact ⟨.refl s, nofun⟩
  refine ensures_bind (ensures_ask (.refl s) ?_)
  split
  · exact ⟨.refl s, nofun⟩
  refine ensures_bind ((ensures_stageBinary bytes artifact version).mono (fun _ h => h) ?_)
  intro r t ⟨ht, hbinary⟩
  cases r with
  | error _ => exact ⟨ht, nofun⟩
  | ok _ =>
      refine (ensures_stageCompatibility _).mono (fun u hu => ht.trans hu) fun r u hu => ?_
      exact ⟨ht.trans hu, fun _ => hu.quiet.binary version (hbinary rfl)⟩

theorem release_of_targetVersion {target : Option Target} {version : Text}
    (h : targetVersion lib target = .ok version) : target = some (.release version) := by
  unfold targetVersion at h
  split at h
  · cases h
  · cases h
  · split at h
    · rw [Except.ok.inj h]
    · cases h

/-- An update is prepared from the version that runs, and replaces an unfinished one only as a repair. -/
theorem prepareChecks_ok {bytes : Bytes} {artifact : ReleaseArtifact} {manifest : ReleaseManifest}
    {options : TransactionOptions} {existing : Option UpdateTransaction} {previousVersion : Text}
    (h : prepareChecks lib bytes artifact manifest options s = .ok (existing, some previousVersion)) :
    s.link .current = some (.release previousVersion) ∧
      ∀ old, s.journal .transaction = some old → old.isTerminal = false →
        old.stage = .recoveryRequired ∧ options.repair = true := by
  unfold prepareChecks at h
  obtain ⟨_, _, h⟩ := bind_eq_ok.mp h
  obtain ⟨_, _, h⟩ := bind_eq_ok.mp h
  obtain ⟨_, _, h⟩ := bind_eq_ok.mp h
  obtain ⟨_, _, h⟩ := bind_eq_ok.mp h
  obtain ⟨_, _, h⟩ := bind_eq_ok.mp h
  obtain ⟨_, _, h⟩ := bind_eq_ok.mp h
  obtain ⟨_, _, h⟩ := bind_eq_ok.mp h
  obtain ⟨held, hload, h⟩ := bind_eq_ok.mp h
  obtain ⟨_, hrepair, h⟩ := bind_eq_ok.mp h
  rw [journal_of_load hload]
  cases held with
  | none =>
      obtain ⟨version, htarget, h⟩ := bind_eq_ok.mp h
      obtain ⟨_, _, h⟩ := bind_eq_ok.mp h
      cases h
      exact ⟨release_of_targetVersion htarget, nofun⟩
  | some record =>
      have hrepair' : options.repair = true → record.stage = .recoveryRequired := by
        intro hoption
        have hstage := rejectIf_eq_ok.mp hrepair
        rw [hoption] at hstage
        simpa using hstage
      -- both ways to replace a journal end with the version that runs
      have hlast : ∀ {x : Except UpdateError Text}, (do
          let version ← x
          rejectIf (decide (version = manifest.version)) UpdateError.incompatible
          pure (some record, some version)) = .ok (existing, some previousVersion) →
          x = .ok previousVersion := by
        intro x hx
        obtain ⟨version, hversion, hx⟩ := bind_eq_ok.mp hx
        obtain ⟨_, _, hx⟩ := bind_eq_ok.mp hx
        cases hx
        exact hversion
      dsimp only at h
      split at h
      · split at h <;> cases h
      split at h
      · next hoption =>
          obtain ⟨_, _, h⟩ := bind_eq_ok.mp h
          obtain ⟨_, _, h⟩ := bind_eq_ok.mp h
          obtain ⟨_, _, h⟩ := bind_eq_ok.mp h
          refine ⟨release_of_targetVersion (hlast h), fun old hold _ => ?_⟩
          cases hold
          exact ⟨hrepair' hoption, hoption⟩
      · -- without a repair only a finished journal is replaced
        obtain ⟨_, hterminal, h⟩ := bind_eq_ok.mp h
        refine ⟨release_of_targetVersion (hlast h), fun old hold hunfinished => ?_⟩
        cases hold
        have hfinished := rejectIf_eq_ok.mp hterminal
        rw [hunfinished] at hfinished
        cases hfinished

/-- The journal of a new update is written. -/
theorem ensures_savePrepared {bytes : Bytes} {artifact : ReleaseArtifact} {manifest : ReleaseManifest}
    {options : TransactionOptions} {new : UpdateTransaction} (hquiet : Quiet s t)
    (hjournal : t.journal .transaction = s.journal .transaction)
    (hcurrent : s.link .current = some (.release new.previousVersion))
    (hstaged : (t.versions new.manifest.version).binary ≠ none)
    (hreplaced : ∀ old, s.journal .transaction = some old → old.isTerminal = false →
      old.stage = .recoveryRequired ∧ options.repair = true) :
    Ensures t (save lib pid new >>= fun _ => (pure (some new) : Program _))
      (Effect (.prepare bytes artifact manifest options) s)
      fun _ u => Effect (.prepare bytes artifact manifest options) s u := by
  have hunsaved : ∀ u, Settled t u → Effect (.prepare bytes artifact manifest options) s u :=
    fun u hu => ⟨hquiet.trans hu.quiet, .same ((congrFun hu.journal _).trans hjournal)⟩
  have hsaved : ∀ u, Settled (journaled t .transaction new) u →
      Effect (.prepare bytes artifact manifest options) s u := by
    intro u hu
    have hbeside : Quiet t u := by
      refine ⟨hu.role, hu.link, hu.linkTemporaries, fun version h => ?_⟩
      rw [hu.versions]
      exact h
    refine ⟨hquiet.trans hbeside, .prepared new ?_ rfl hcurrent (hbeside.binary _ hstaged) ?_⟩
    · rw [hu.journal]
      exact Function.update_self JournalFile.transaction _ t.journal
    · intro old hold hunfinished _ _
      obtain ⟨hstage, hrepair⟩ := hreplaced old hold hunfinished
      exact ⟨hstage, bytes, artifact, manifest, options, rfl, hrepair⟩
  refine ensures_bind ((ensures_saveAt lib t pid .transaction new).mono (fun u hu => ?_) ?_)
  · exact hu.elim (hunsaved u) (hsaved u ·.1)
  intro r u hu
  cases r with
  | error _ => exact hunsaved u hu
  | ok _ => exact ensures_pure (hsaved u hu.1) (hsaved u hu.1)

theorem ensures_prepareApproved (bytes : Bytes) (artifact : ReleaseArtifact)
    (manifest : ReleaseManifest) (options : TransactionOptions) :
    Ensures s (prepareApproved lib pid bytes artifact manifest options)
      (Effect (.prepare bytes artifact manifest options) s)
      fun _ t => Effect (.prepare bytes artifact manifest options) s t := by
  unfold prepareApproved
  refine ensures_bind (ensures_ask (.refl _ s) ?_)
  cases hchecks : prepareChecks lib bytes artifact manifest options s with
  | error _ => exact .refl _ s
  | ok checked =>
      obtain ⟨existing, previousVersion⟩ := checked
      cases previousVersion with
      | none => exact ensures_pure (.refl _ s) (.refl _ s)
      | some previousVersion =>
          obtain ⟨hcurrent, hreplaced⟩ := prepareChecks_ok hchecks
          refine ensures_bind ((ensures_stageVersioned bytes artifact _ manifest).mono
            (fun _ h => h.effect _) ?_)
          intro r t ⟨ht, hstaged⟩
          cases r with
          | error _ => exact ht.effect _
          | ok _ =>
              replace hstaged := hstaged rfl
              have hjournal : t.journal .transaction = s.journal .transaction :=
                congrFun ht.journal _
              refine ensures_bind (ensures_ask (ht.effect _) ?_)
              show Ensures t (if _ then _ else _) _ _
              split
              · -- A repair keeps the journal it replaces.
                cases existing with
                | none => exact ensures_bind (ensures_fail (ht.effect _) (ht.effect _))
                | some existing =>
                    have hkept : ∀ u, Settled (journaled t .previousTransaction existing) u →
                        Quiet s u ∧ u.journal .transaction = s.journal .transaction ∧
                          u.versions = t.versions := by
                      intro u hu
                      refine ⟨ht.quiet.trans ⟨hu.role, hu.link, hu.linkTemporaries, fun _ h => ?_⟩,
                        ?_, hu.versions⟩
                      · rw [hu.versions]
                        exact h
                      · rw [hu.journal, ← hjournal]
                        show Function.update t.journal .previousTransaction (some existing) .transaction = _
                        rw [Function.update_of_ne (by decide)]
                    refine ensures_bind ((ensures_saveAt lib t pid .previousTransaction existing).mono
                      (fun u hu => ?_) ?_)
                    · rcases hu with hu | ⟨hu, -⟩
                      · exact ⟨ht.quiet.trans hu.quiet,
                          .same ((congrFun hu.journal _).trans hjournal)⟩
                      · exact ⟨(hkept u hu).1, .same (hkept u hu).2.1⟩
                    intro r u hu
                    cases r with
                    | error _ =>
                        exact ⟨ht.quiet.trans hu.quiet,
                          .same ((congrFun hu.journal _).trans hjournal)⟩
                    | ok _ =>
                        obtain ⟨hquiet, hjournal', hversions⟩ := hkept u hu.1
                        refine ensures_savePrepared hquiet hjournal' hcurrent ?_ hreplaced
                        rw [hversions]
                        exact hstaged
              · exact ensures_savePrepared ht.quiet hjournal hcurrent hstaged hreplaced

variable (lib pid s) in
theorem effect_interrupt (hop : isActivate op = false) (k : Nat) :
    Effect op s (interrupt lib pid op k s) := by
  cases op with
  | acceptManifest manifest now currentVersion schemaVersion wireMajor =>
      exact ((ensures_acceptManifest manifest now currentVersion schemaVersion wireMajor).1 k).effect _
  | prepare bytes artifact manifest options =>
      exact (ensures_prepareApproved bytes artifact manifest options).1 k
  | bindPreview record digest => exact (ensures_bindPreview digest).1 k
  | activate record schema wire => cases hop
  | requestRollback record schema wire => exact (ensures_requestRollback schema wire).1 k
  | recordFailure record => exact ensures_recordFailure.1 k
  | recordReady record => exact ensures_recordReady.1 k

/-- A cut after the last write is no cut. -/
theorem interrupt_length (op : Op) (s : Installation) :
    interrupt lib pid op (op.writes lib pid s).length s = complete lib pid op s := by
  rw [interrupt, List.take_length, complete]

variable (lib) in
theorem exists_interrupt (s : Installation) (call : Call) :
    ∃ k, step lib s call = interrupt lib call.pid call.op k s := by
  unfold step
  cases call.crash with
  | none => exact ⟨_, (interrupt_length call.op s).symm⟩
  | some k => exact ⟨k, rfl⟩

/-! ## One write of the journal -/

end Peerward.Updater
