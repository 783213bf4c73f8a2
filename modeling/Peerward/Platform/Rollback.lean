import Peerward.Platform.Tracking

/-!
# What a rollback does

`rollback_all` from a tracked coordinator, for any failures: what it has taken back is as in `b`, what it
could not take back stays listed, and the journal file can be taken back at every moment in between.
-/

namespace Peerward.Platform

open Peerward.Lib Peerward.Net Durable

variable {env : Environment} {b : Host} {mtu : Nat} {s t : Machine} {command : CommandSpec}

/-- A rollback that counts as done, and the host after it. -/
def Removed (env : Environment) (command : CommandSpec) (h h' : Host) : Prop :=
  execute env.connected command h = .ok h' ∨
    (∃ interface, execute env.connected command h = .error (.interfaceMissing interface)) ∧ h' = h

/-! ## The parts of a turn

A turn runs a command, shortens the list and saves it. At any moment in between, what the file holds can
still be taken back from the host as it is.
-/

/-- At any moment the journal file can be taken back. -/
def Safe (b : Host) (s : Machine) : Prop := Recoverable b s.file s.host

theorem Settles.safe {b' : Host} (hb : Settles b b') : Safe b s ↔ Safe b' s := by
  unfold Safe Recoverable
  refine forall_congr' fun journal => forall_congr' fun _ => forall_congr' fun command =>
    forall_congr' fun _ => and_congr_left fun _ => hb.returns

theorem ensures_runCommand {C : Machine → Prop} {Q : Except PlatformError Unit → Machine → Prop}
    (event : Event) (hC : C s)
    (hok : ∀ host, env.fails event = false → execute env.connected command s.host = .ok host →
      C { s with host } ∧ Q (.ok ()) { s with host })
    (herror : ∀ error, (env.fails event = true ∧ error = .command "failed" ∨
      env.fails event = false ∧ execute env.connected command s.host = .error error) → Q (.error error) s) :
    Ensures s (runCommand env event command) C Q := by
  unfold runCommand
  refine ensures_bind (ensures_ask hC ?_)
  cases hfails : env.fails event with
  | true => exact herror _ (.inl ⟨hfails, rfl⟩)
  | false =>
      rw [if_neg Bool.false_ne_true]
      cases hrun : execute env.connected command s.host with
      | error error => exact herror error (.inr ⟨hfails, hrun⟩)
      | ok host =>
          obtain ⟨hC', hQ⟩ := hok host hfails hrun
          exact ensures_put hC hC' hQ

theorem ensures_persistJournal {C : Machine → Prop} {Q : Except PlatformError Unit → Machine → Prop}
    (hC : C s) (hnone : s.journal = none → Q (.ok ()) s)
    (hsaved : ∀ journal, s.journal = some journal → env.fails (.save journal) = false →
      C { s with file := some journal } ∧ Q (.ok ()) { s with file := some journal })
    (hfailed : ∀ journal, s.journal = some journal → env.fails (.save journal) = true →
      C (s.failing (.journal journal)) ∧ Q (.error .io) (s.failing (.journal journal))) :
    Ensures s (persistJournal env) C Q := by
  unfold persistJournal
  refine ensures_bind (ensures_ask hC ?_)
  cases hjournal : s.journal with
  | none => exact ensures_pure hC (hnone hjournal)
  | some journal =>
      show Ensures s (if _ then _ else _) _ _
      cases hfails : env.fails (.save journal) with
      | true =>
          rw [if_pos rfl]
          obtain ⟨hC', hQ⟩ := hfailed journal hjournal hfails
          exact ensures_bind (ensures_put hC hC' (ensures_fail hC' hQ))
      | false =>
          rw [if_neg Bool.false_ne_true]
          obtain ⟨hC', hQ⟩ := hsaved journal hjournal hfails
          exact ensures_put hC hC' hQ

theorem ensures_setApplied {C : Machine → Prop} {Q : Except PlatformError Unit → Machine → Prop}
    {f : List CommandSpec → List CommandSpec} (hC : C s) (hC' : C { s with applied := f s.applied })
    (hQ : Q (.ok ()) { s with applied := f s.applied }) : Ensures s (setApplied f) C Q := by
  unfold setApplied
  exact ensures_bind (ensures_ask hC (ensures_put hC hC' hQ))

theorem journal_rollback {journal : NetworkJournal} (h : s.journal = some journal) :
    s.journaled = true ∧ journal.rollback = s.applied := by
  unfold Machine.journal at h
  split at h
  · next hjournaled =>
      rw [← Option.some.inj h]
      exact ⟨(Bool.and_eq_true _ _ ▸ hjournaled).1, rfl⟩
  · cases h

theorem journal_phase {journal : NetworkJournal} {phase : TransactionPhase} (hphase : s.phase = some phase)
    (h : s.journal = some journal) : journal.phase = phase := by
  unfold Machine.journal at h
  split at h
  · rw [← Option.some.inj h, hphase]
    rfl
  · cases h

/-- The journal of a tracked coordinator can be taken back. -/
theorem Tracked.saved {journal : NetworkJournal} (ht : Tracked b mtu s.applied s.host)
    (hjournal : s.journal = some journal) : Recoverable b (some journal) s.host := by
  refine ht.recoverable fun held hheld => ?_
  rw [← Option.some.inj hheld, (journal_rollback hjournal).2]
  exact fun _ hmem => hmem

/-! ## A turn of the loop

A command that has run is off the list, and one that was refused is on it. A journal write that fails is
remembered and does not stop the loop.
-/

/-- What fails in a rollback that takes everything back: a write of the journal. -/
def UnsavedRollback (failure : Failure) : Prop :=
  ∃ journal, failure = .journal journal ∧ journal.phase = .rollingBack

/-- The first failure after a rollback that takes everything back, where `failed` says that the journal
could not be written. -/
def Blamed (failed : Bool) (s t : Machine) : Prop :=
  (failed = false ∧ t.failure = s.failure) ∨
    failed = true ∧ ∃ failure, UnsavedRollback failure ∧ t.failure = s.failure.or (some failure)

theorem Blamed.trans {u : Machine} {failed failed' : Bool} (h : Blamed failed s t) (h' : Blamed failed' t u) :
    Blamed (failed || failed') s u := by
  rcases h with ⟨rfl, hsame⟩ | ⟨rfl, failure, hunsaved, hsome⟩ <;>
    rcases h' with ⟨rfl, hsame'⟩ | ⟨rfl, failure', hunsaved', hsome'⟩
  · exact .inl ⟨rfl, hsame'.trans hsame⟩
  · exact .inr ⟨rfl, failure', hunsaved', by rw [hsome', hsame]⟩
  · exact .inr ⟨rfl, failure, hunsaved, hsame'.trans hsome⟩
  · refine .inr ⟨rfl, failure, hunsaved, ?_⟩
    rw [hsome', hsome, Option.or_assoc]
    rfl

/-- What a turn leaves: the command has run and is off the list, or it was refused and is on it. -/
inductive Turned (env : Environment) (command : CommandSpec) (front kept : List CommandSpec) (s : Machine)
    (report : RollbackReport) (t : Machine) : Prop where
  | removed (applied : t.applied = front ++ kept) (host : Removed env command s.host t.host)
      (refused : t.refused = s.refused) (conflict : report.ownershipConflict = false)
      (blamed : Blamed report.failed s t)
  | refused (applied : t.applied = front ++ command :: kept) (host : t.host = s.host)
      (refused : t.refused = true) (report : (report.failed || report.ownershipConflict) = true)

/-- What no turn changes. -/
structure Unturned (s t : Machine) : Prop where
  phase : t.phase = s.phase
  journaled : t.journaled = s.journaled
  file : s.journaled = false → t.file = s.file

theorem Unturned.refl (s : Machine) : Unturned s s := ⟨rfl, rfl, fun _ => rfl⟩

theorem Unturned.trans {u : Machine} (h : Unturned s t) (h' : Unturned t u) : Unturned s u :=
  ⟨h'.phase.trans h.phase, h'.journaled.trans h.journaled,
    fun hs => (h'.file (h.journaled.trans hs)).trans (h.file hs)⟩

/-- How a turn ends. -/
def TurnEnds (env : Environment) (b : Host) (command : CommandSpec) (front kept : List CommandSpec)
    (s : Machine) (r : Except PlatformError RollbackReport) (t : Machine) : Prop :=
  ∃ report, r = .ok report ∧ Turned env command front kept s report t ∧ Unturned s t ∧ Safe b t

section Turn

variable {front kept : List CommandSpec} {host : Host}

theorem Safe.removed (hs : Safe b s) (ht : Tracked b mtu (front ++ command :: kept) s.host)
    (hrun : Removed env command s.host host) : Safe b { s with host } := by
  show Recoverable b s.file host
  rw [(ht.undone hrun).1]
  exact hs.takenBack command

/-- The command is gone: it leaves the list, and the list is saved. -/
theorem ensures_removed {finish : Except PlatformError Unit → Program RollbackReport}
    (happlied : s.applied = front ++ command :: kept) (ht : Tracked b mtu s.applied s.host)
    (hs : Safe b s) (hphase : s.phase = some .rollingBack) (hfinished : finish (.ok ()) = pure {})
    (hfailed : ∀ error, finish (.error error) = pure { failed := true })
    (hrun : Removed env command s.host host) :
    Ensures { s with host } (setApplied (·.eraseIdx front.length) >>= fun _ =>
      attempt (persistJournal env) >>= finish) (Safe b) (TurnEnds env b command front kept s) := by
  rw [happlied] at ht
  have hsafe : Safe b { s with host } := hs.removed ht hrun
  have herase : s.applied.eraseIdx front.length = front ++ kept := by
    rw [happlied, List.eraseIdx_append_of_length_le (Nat.le_refl _), Nat.sub_self]
    rfl
  have htracked := (ht.undone hrun).2
  rw [← herase] at htracked
  refine ensures_bind (ensures_setApplied hsafe hsafe ?_)
  refine ensures_bind (ensures_attempt (ensures_persistJournal hsafe ?_ ?_ ?_))
  · intro _
    dsimp only
    rw [hfinished]
    exact ensures_pure hsafe ⟨{}, rfl, .removed herase hrun rfl rfl (.inl ⟨rfl, rfl⟩),
      ⟨rfl, rfl, fun _ => rfl⟩, hsafe⟩
  · intro journal hjournal _
    have hheld : Safe b { s with
        host
        applied := s.applied.eraseIdx front.length
        file := some journal } :=
      (settles_settled b mtu command).safe.mpr (Tracked.saved
        (s := { s with host, applied := s.applied.eraseIdx front.length }) htracked hjournal)
    refine ⟨hheld, ?_⟩
    dsimp only
    rw [hfinished]
    refine ensures_pure hheld ⟨{}, rfl, .removed herase hrun rfl rfl (.inl ⟨rfl, rfl⟩),
      ⟨rfl, rfl, fun hunjournaled => ?_⟩, hheld⟩
    rw [(journal_rollback hjournal).1] at hunjournaled
    cases hunjournaled
  · intro journal hjournal _
    have hunsaved : UnsavedRollback (.journal journal) := ⟨journal, rfl, journal_phase
      (s := { s with host, applied := s.applied.eraseIdx front.length }) hphase hjournal⟩
    refine ⟨hsafe, ?_⟩
    dsimp only
    rw [hfailed]
    exact ensures_pure hsafe ⟨_, rfl, .removed herase hrun rfl rfl (.inr ⟨rfl, _, hunsaved, rfl⟩),
      ⟨rfl, rfl, fun _ => rfl⟩, hsafe⟩

/-- The command was refused: it stays on the list. -/
theorem ensures_refused {report : RollbackReport} (happlied : s.applied = front ++ command :: kept)
    (hs : Safe b s) (hreport : (report.failed || report.ownershipConflict) = true) :
    Ensures s (put .refuse >>= fun _ => (pure report : Program RollbackReport)) (Safe b)
      (TurnEnds env b command front kept s) := by
  refine ensures_bind (ensures_put hs hs (ensures_pure hs ?_))
  exact ⟨report, rfl, .refused happlied rfl rfl hreport, ⟨rfl, rfl, fun _ => rfl⟩, hs⟩

theorem ensures_rollbackAt (happlied : s.applied = front ++ command :: kept)
    (ht : Tracked b mtu s.applied s.host) (hs : Safe b s) (hphase : s.phase = some .rollingBack) :
    Ensures s (rollbackAt env front.length command) (Safe b)
      (TurnEnds env b command front kept s) := by
  unfold rollbackAt
  refine ensures_bind (ensures_attempt (ensures_runCommand _ hs ?_ ?_))
  · intro host _ hrun
    refine ⟨?_, ensures_removed happlied ht hs hphase rfl (fun _ => rfl) (.inl hrun)⟩
    rw [happlied] at ht
    exact hs.removed ht (.inl hrun)
  · intro error herror
    cases error with
    | interfaceMissing interface =>
        rcases herror with ⟨_, herror⟩ | ⟨_, hrun⟩
        · cases herror
        · exact ensures_removed happlied ht hs hphase rfl (fun _ => rfl) (.inr ⟨⟨interface, hrun⟩, rfl⟩)
    | ownershipConflict => exact ensures_refused happlied hs rfl
    | invalidName | command | io | rollback => exact ensures_refused happlied hs rfl

end Turn

/-! ## The loop

By induction on the list, from its end. If nothing was refused, what is left of a host is `settledAll`: as
before, but for the links that were taken down.
-/

/-- `b` with what the rollbacks of a list leave of their objects. -/
def settledAll (b : Host) (mtu : Nat) : List CommandSpec → Host
  | [] => b
  | command :: applied => settled (settledAll b mtu applied) mtu command

/-- The rollbacks run from the end of the list. -/
theorem settledAll_concat (b : Host) (mtu : Nat) (applied : List CommandSpec) (command : CommandSpec) :
    settledAll (settled b mtu command) mtu applied = settledAll b mtu (applied ++ [command]) := by
  induction applied with
  | nil => rfl
  | cons first applied ih =>
      rw [List.cons_append, settledAll, ih]
      rfl

/-- The loop over a list, with `kept` behind it: something was refused, or the list is taken back. -/
structure RolledBack (b : Host) (mtu : Nat) (front kept : List CommandSpec) (s : Machine)
    (report : RollbackReport) (t : Machine) : Prop where
  unturned : Unturned s t
  safe : Safe b t
  tracked : ∃ b', Settles b b' ∧ Tracked b' mtu t.applied t.host ∧
    (t.refused = false → b' = settledAll b mtu front)
  outcome : (t.refused = true ∧ (report.failed || report.ownershipConflict) = true) ∨
    (t.applied = kept ∧ t.refused = s.refused ∧ report.ownershipConflict = false ∧
      Blamed report.failed s t)

theorem RolledBack.refused {front kept : List CommandSpec} {report : RollbackReport}
    (h : RolledBack b mtu front kept s report t) (hs : s.refused = true) : t.refused = true := by
  rcases h.outcome with ⟨hrefused, -⟩ | ⟨-, hsame, -⟩
  · exact hrefused
  · rw [hsame, hs]

theorem ensures_rollbackFrom (front kept : List CommandSpec) (happlied : s.applied = front ++ kept)
    (ht : Tracked b mtu s.applied s.host) (hs : Safe b s) (hphase : s.phase = some .rollingBack) :
    Ensures s (rollbackFrom env front.length) (Safe b) fun r t =>
      ∃ report, r = .ok report ∧ RolledBack b mtu front kept s report t := by
  induction front using List.reverseRecOn generalizing s b kept with
  | nil =>
      exact ensures_pure hs ⟨{}, rfl, .refl s, hs, ⟨b, .refl b, ht, fun _ => rfl⟩,
        .inr ⟨happlied, rfl, rfl, .inl ⟨rfl, rfl⟩⟩⟩
  -- the command at the end of the list has its turn, and the loop goes on in front of it
  | append_singleton front command ih =>
      rw [List.append_assoc, List.singleton_append] at happlied
      rw [List.length_append, List.length_singleton]
      show Ensures s (ask (fun s => .ok s.applied[front.length]?) >>= fun _ => _) _ _
      refine ensures_bind (ensures_ask hs ?_)
      have hentry : s.applied[front.length]? = some command := by
        rw [happlied, List.getElem?_append_right (Nat.le_refl _), Nat.sub_self]
        rfl
      rw [hentry]
      show Ensures s (rollbackAt env front.length command >>= fun here => _) _ _
      refine ensures_bind ((ensures_rollbackAt happlied ht hs hphase).mono (fun _ h => h) ?_)
      rintro _ t ⟨here, rfl, hturned, hunturned, hsafe⟩
      have hphase' : t.phase = some .rollingBack := hunturned.phase.trans hphase
      cases hturned with
      | removed applied host refused conflict blamed =>
          -- gone: from here on the host before is the one without it
          obtain ⟨-, htracked⟩ := (happlied ▸ ht).undone host
          have hsettles := settles_settled b mtu command
          refine ensures_bind ((ih kept applied (applied ▸ htracked) (hsettles.safe.mp hsafe) hphase').mono
            (fun u hu => hsettles.safe.mpr hu) ?_)
          rintro _ u ⟨rest, rfl, hrest⟩
          have hsafe' : Safe b u := hsettles.safe.mpr hrest.safe
          refine ensures_pure hsafe' ⟨_, rfl, hunturned.trans hrest.unturned, hsafe', ?_, ?_⟩
          · obtain ⟨b', hb', htracked', hdone⟩ := hrest.tracked
            exact ⟨b', hsettles.trans hb', htracked', fun h => (hdone h).trans (settledAll_concat ..)⟩
          · rcases hrest.outcome with ⟨hrefused, hreport⟩ | ⟨hkept, hsame, hconflict, hblamed⟩
            · refine .inl ⟨hrefused, ?_⟩
              simp only [RollbackReport.merge, Bool.or_eq_true] at hreport ⊢
              exact hreport.imp .inr .inr
            · refine .inr ⟨hkept, hsame.trans refused, ?_, blamed.trans hblamed⟩
              rw [RollbackReport.merge, conflict, hconflict]
              rfl
      | refused applied host refused report =>
          -- refused: it joins what is kept behind the rest
          have htracked : Tracked b mtu t.applied t.host := by
            rw [applied, host, ← happlied]
            exact ht
          refine ensures_bind ((ih (command :: kept) applied htracked hsafe hphase').mono (fun _ h => h) ?_)
          rintro _ u ⟨rest, rfl, hrest⟩
          have hurefused : u.refused = true := hrest.refused refused
          refine ensures_pure hrest.safe ⟨_, rfl, hunturned.trans hrest.unturned, hrest.safe, ?_, .inl
            ⟨hurefused, ?_⟩⟩
          · obtain ⟨b', hb', htracked', -⟩ := hrest.tracked
            refine ⟨b', hb', htracked', fun h => ?_⟩
            rw [hurefused] at h
            cases h
          · simp only [RollbackReport.merge, Bool.or_eq_true] at report ⊢
            exact report.imp .inl .inl

/-! ## `rollback_all` -/

/-- Something was refused, or everything is taken back; then an error is a write of the journal that has
failed. -/
structure Reversed (b : Host) (mtu : Nat) (s : Machine) (r : Except PlatformError Unit) (t : Machine) :
    Prop where
  journaled : t.journaled = s.journaled
  safe : Safe b t
  tracked : ∃ b', Settles b b' ∧ Tracked b' mtu t.applied t.host ∧
    (t.refused = false → b' = settledAll b mtu s.applied)
  unjournaled : t.journaled = false → t.file = none
  empty : t.applied = [] → t.file = none
  outcome : (t.refused = true ∧ ∃ error, r = .error error) ∨
    (t.applied = [] ∧ t.refused = s.refused ∧
      ((r = .ok () ∧ t.failure = s.failure) ∨
        (∃ error, r = .error error) ∧ ∃ failure, UnsavedRollback failure ∧
          t.failure = s.failure.or (some failure)))

theorem ensures_rollbackAll (ht : Tracked b mtu s.applied s.host) (hs : Safe b s)
    (hfile : s.journaled = false → s.file = none) :
    Ensures s (rollbackAll env) (Safe b) (Reversed b mtu s) := by
  unfold rollbackAll
  refine ensures_bind (ensures_put hs hs ?_)
  refine ensures_bind (ensures_ask hs ?_)
  show Ensures (s.write (.phase (some .rollingBack)))
    (rollbackFrom env s.applied.length >>= fun report => _) _ _
  refine ensures_bind ((ensures_rollbackFrom (s := s.write (.phase (some .rollingBack))) s.applied []
    (List.append_nil _).symm ht hs rfl).mono (fun _ h => h) ?_)
  rintro _ t ⟨report, rfl, hloop⟩
  obtain ⟨b', hb', htracked, hdone⟩ := hloop.tracked
  have hjournaled : t.journaled = s.journaled := hloop.unturned.journaled
  have hkept : t.journaled = false → t.file = none := fun hoff =>
    (hloop.unturned.file (hjournaled ▸ hoff)).trans (hfile (hjournaled ▸ hoff))
  -- What the report says decides what is returned; by then the host and the list are as they will be.
  have hreturn : ∀ {u : Machine}, u.host = t.host → u.applied = t.applied → u.refused = t.refused →
      u.journaled = t.journaled → u.failure = t.failure → Safe b u → (t.applied = [] → u.file = none) →
      (u.journaled = false → u.file = none) →
      Ensures u (if report.ownershipConflict then fail .ownershipConflict
        else if report.failed then fail .rollback else pure () : Program Unit) (Safe b)
        (Reversed b mtu s) := by
    intro u hhost happlied hrefused hjournaled' hfailure hsafe hempty hunjournaled
    have hreversed : ∀ r, ((u.refused = true ∧ ∃ error, r = .error error) ∨
        (u.applied = [] ∧ u.refused = s.refused ∧ ((r = .ok () ∧ u.failure = s.failure) ∨
          (∃ error, r = .error error) ∧ ∃ failure, UnsavedRollback failure ∧
            u.failure = s.failure.or (some failure)))) → Reversed b mtu s r u := by
      intro r houtcome
      refine ⟨hjournaled'.trans hjournaled, hsafe, ⟨b', hb', ?_, fun h => hdone (hrefused ▸ h)⟩,
        hunjournaled, fun h => hempty (happlied ▸ h), houtcome⟩
      rw [hhost, happlied]
      exact htracked
    rw [happlied, hrefused, hfailure] at hreversed
    rcases hloop.outcome with ⟨hbad, hreport⟩ | ⟨hnil, hsame, hconflict, hblamed⟩
    · split
      · exact ensures_fail hsafe (hreversed _ (.inl ⟨hbad, _, rfl⟩))
      · next hconflict =>
          rw [Bool.eq_false_iff.mpr hconflict, Bool.or_false] at hreport
          rw [if_pos hreport]
          exact ensures_fail hsafe (hreversed _ (.inl ⟨hbad, _, rfl⟩))
    · rw [hconflict, if_neg Bool.false_ne_true]
      rcases hblamed with ⟨hfailed, hfirst⟩ | ⟨hfailed, failure, hunsaved, hfirst⟩
      · rw [hfailed, if_neg Bool.false_ne_true]
        exact ensures_pure hsafe (hreversed _ (.inr ⟨hnil, hsame, .inl ⟨rfl, hfirst⟩⟩))
      · rw [hfailed, if_pos rfl]
        exact ensures_fail hsafe (hreversed _
          (.inr ⟨hnil, hsame, .inr ⟨⟨_, rfl⟩, failure, hunsaved, hfirst⟩⟩))
  refine ensures_bind (ensures_ask hloop.safe ?_)
  show Ensures t (if _ then _ else _) _ _
  split
  · next hempty =>
      -- nothing is left, and the file goes
      have happlied : t.applied = [] := List.isEmpty_iff.mp hempty
      refine ensures_bind (ensures_put hloop.safe hloop.safe ?_)
      refine ensures_bind (ensures_ask hloop.safe ?_)
      show Ensures (t.write (.phase none)) (if t.journaled then _ else _) _ _
      split
      · have hremoved : Safe b ((t.write (.phase none)).write .removeFile) := nofun
        refine ensures_bind (ensures_put hloop.safe hremoved ?_)
        exact hreturn rfl rfl rfl rfl rfl hremoved (fun _ => rfl) fun _ => rfl
      · next hunjournaled =>
          have hnone : t.file = none := hkept (Bool.eq_false_iff.mpr hunjournaled)
          exact hreturn rfl rfl rfl rfl rfl hloop.safe (fun _ => hnone) fun _ => hnone
  · next hnonempty =>
      -- what was refused is saved
      have happlied : t.applied ≠ [] := fun h => hnonempty (List.isEmpty_iff.mpr h)
      refine ensures_bind (ensures_persistJournal hloop.safe ?_ ?_ ?_)
      · exact fun _ => hreturn rfl rfl rfl rfl rfl hloop.safe (fun h => absurd h happlied) hkept
      · intro journal hjournal _
        have hsaved : Safe b { t with file := some journal } :=
          hb'.safe.mpr (Tracked.saved htracked hjournal)
        refine ⟨hsaved, hreturn rfl rfl rfl rfl rfl hsaved (fun h => absurd h happlied) fun hoff => ?_⟩
        rw [(journal_rollback hjournal).1] at hoff
        cases hoff
      · intro journal _ _
        refine ⟨hloop.safe, hjournaled, hloop.safe, ⟨b', hb', htracked, hdone⟩, hkept,
          fun h => absurd h happlied, .inl ⟨?_, _, rfl⟩⟩
        exact (hloop.outcome.resolve_right fun h => happlied h.1).1

end Peerward.Platform
