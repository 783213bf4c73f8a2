import Peerward.Platform.Rollback

/-!
# What applying operations does

Where a list of operations ends, as a function of the list, the environment and the host: `Exit`. A
failure is answered with a rollback, but for a journal write ahead of a change: that one is only returned.
-/

namespace Peerward.Platform

open Peerward.Lib Peerward.Net Durable

variable (env : Environment)

/-! ## Where a call ends

A call is a sequence of commands and journal writes, and ends at the first that fails. `Exit` says where
that is, from the plan and the environment, without the coordinator.
-/

/-- How a call ends, with the rollbacks listed then and what has failed. -/
inductive Exit where
  | done (applied : List CommandSpec) (host : Host)
  | rolledBack (applied : List CommandSpec) (failure : Failure)
  /-- An error that nothing is taken back for. -/
  | abandoned (applied : List CommandSpec) (failure : Failure)

/-- The journal of a list of rollbacks. -/
def journalOf (phase : TransactionPhase) (applied : List CommandSpec) : NetworkJournal :=
  { schemaVersion := 1, phase, rollback := applied }

/-- Writing this list to the journal fails. -/
def saveFails (journaled : Bool) (phase : TransactionPhase) (applied : List CommandSpec) : Bool :=
  journaled && env.fails (.save (journalOf phase applied))

def runApply (command : CommandSpec) (h : Host) : Except PlatformError Host :=
  if env.fails (.apply command) then .error (.command "failed") else execute env.connected command h

def operationExit (journaled beforeMutation : Bool) (operation : Operation) (applied : List CommandSpec)
    (h : Host) : Exit :=
  let listed := applied ++ [operation.rollback]
  if prejournaled beforeMutation operation then
    if saveFails env journaled .prepared listed then
      .abandoned applied (.journal (journalOf .prepared listed))
    else match runApply env operation.apply h with
      | .error _ => .rolledBack listed (.command operation.apply)
      | .ok h' => .done listed h'
  else match runApply env operation.apply h with
    | .error _ => .rolledBack applied (.command operation.apply)
    | .ok h' =>
      if saveFails env journaled .prepared listed then
        .rolledBack listed (.journal (journalOf .prepared listed))
      else .done listed h'

def operationsExit (journaled beforeMutation : Bool) :
    List Operation → List CommandSpec → Host → Exit
  | [], applied, h => .done applied h
  | operation :: rest, applied, h =>
    match operationExit env journaled beforeMutation operation applied h with
    | .done applied h => operationsExit journaled beforeMutation rest applied h
    | exit => exit

/-! ## Between two operations

Between two operations the list is what has been applied, and the journal has the list. An operation breaks
this twice, once for the journal and once for the host, in an order that depends on the operation.
-/

variable {env} {b : Host} {mtu : Nat} {s t : Machine} {operation : Operation} {beforeMutation : Bool}

/-- A coordinator whose list is what has been applied. -/
structure Listed (b : Host) (mtu : Nat) (s : Machine) : Prop where
  tracked : Tracked b mtu s.applied s.host
  file : ∀ journal, s.file = some journal → journal.rollback ⊆ s.applied
  empty : s.applied = [] → s.file = none
  unjournaled : s.journaled = false → s.file = none

theorem Listed.safe (h : Listed b mtu s) : Safe b s := h.tracked.recoverable h.file

/-- A coordinator that is applying, between two operations. -/
structure Preparing (b : Host) (mtu : Nat) (s : Machine) : Prop extends Listed b mtu s where
  phase : s.phase = some .prepared
  unfailed : s.failure = none

/-- The end of a call that started from `s`. -/
def Ended (b : Host) (mtu : Nat) (s : Machine) (exit : Exit) (r : Except PlatformError Unit) (t : Machine) :
    Prop :=
  match exit with
  | .done applied h => r = .ok () ∧ Preparing b mtu t ∧ t.applied = applied ∧ t.host = h ∧
      t.refused = s.refused ∧ t.journaled = s.journaled
  | .rolledBack applied failure => (∃ error, r = .error error) ∧
      ∃ u r', u.applied = applied ∧ u.refused = s.refused ∧ u.journaled = s.journaled ∧
        u.failure = some failure ∧ Reversed b mtu u r' t
  | .abandoned applied failure => (∃ error, r = .error error) ∧ Listed b mtu t ∧ t.applied = applied ∧
      t.refused = s.refused ∧ t.journaled = s.journaled ∧ t.failure = some failure

theorem Machine.failure_failing (hunfailed : s.failure = none) (failure : Failure) :
    (s.failing failure).failure = some failure := by
  rw [Machine.failing, hunfailed]
  rfl

theorem execute_of_runApply {command : CommandSpec} {h h' : Host}
    (hrun : runApply env command h = .ok h') : execute env.connected command h = .ok h' := by
  unfold runApply at hrun
  split at hrun
  · cases hrun
  · exact hrun

theorem ensures_mutate {Q : Except PlatformError Unit → Machine → Prop} (command : CommandSpec)
    (ht : Tracked b mtu s.applied s.host) (hs : Safe b s) (hfile : s.journaled = false → s.file = none)
    (hok : ∀ h', runApply env command s.host = .ok h' →
      Safe b { s with host := h' } ∧ Q (.ok ()) { s with host := h' })
    (herror : ∀ cause error r t, runApply env command s.host = .error cause →
      Reversed b mtu (s.failing (.command command)) r t → Q (.error error) t) :
    Ensures s (mutate env command) (Safe b) Q := by
  unfold mutate
  refine ensures_bind (ensures_attempt (ensures_runCommand _ hs ?_ ?_))
  · intro h' hfails hrun
    have happly : runApply env command s.host = .ok h' := by
      rw [runApply, hfails, if_neg Bool.false_ne_true, hrun]
    obtain ⟨hsafe, hQ⟩ := hok h' happly
    exact ⟨hsafe, ensures_pure hsafe hQ⟩
  · intro error hfailed
    have happly : ∃ cause, runApply env command s.host = .error cause := by
      rcases hfailed with ⟨hfails, _⟩ | ⟨hfails, hrun⟩
      · exact ⟨_, by rw [runApply, hfails, if_pos rfl]⟩
      · exact ⟨error, by rw [runApply, hfails, if_neg Bool.false_ne_true, hrun]⟩
    obtain ⟨cause, happly⟩ := happly
    have hfailing : Safe b (s.failing (.command command)) := hs
    refine ensures_bind (ensures_put hs hfailing (ensures_bind (ensures_attempt
      ((ensures_rollbackAll (s := s.failing (.command command)) ht hfailing hfile).mono (fun _ h => h) ?_))))
    intro r t hreversed
    cases r with
    | ok _ => exact ensures_fail hreversed.safe (herror cause _ _ t happly hreversed)
    | error _ => exact ensures_fail hreversed.safe (herror cause _ _ t happly hreversed)

/-- What `persist_journal` writes after a push. -/
theorem journal_concat (hphase : s.phase = some .prepared) (applied : List CommandSpec)
    (command : CommandSpec) :
    { s with applied := applied ++ [command] }.journal =
      if s.journaled then some (journalOf .prepared (applied ++ [command])) else none := by
  unfold Machine.journal journalOf
  rw [hphase]
  cases s.journaled <;> simp

/-- A rollback that may be listed before its operation runs. -/
def MayPrecede (operation : Operation) : Prop :=
  (∀ interface, operation.apply ≠ .tuntapAdd interface) ∧
    ∀ interface, operation.rollback ≠ .linkDown interface

/-- The journal write after a push: it is made, is not needed, or fails. -/
theorem ensures_journalRollback {Q : Except PlatformError Unit → Machine → Prop}
    {onFailure : Program Unit} (command : CommandSpec) (hphase : s.phase = some .prepared)
    (hs : Safe b s) (hs' : Safe b { s with applied := s.applied ++ [command] })
    (ht : Tracked b mtu (s.applied ++ [command]) s.host)
    (hok : ∀ t, saveFails env s.journaled .prepared (s.applied ++ [command]) = false →
      t.host = s.host → t.applied = s.applied ++ [command] → t.phase = some .prepared →
      t.journaled = s.journaled → t.refused = s.refused → t.failure = s.failure →
      (∀ journal, t.file = some journal → s.file = some journal ∨ journal.rollback = t.applied) →
      (s.journaled = false → t.file = s.file) → Safe b t → Q (.ok ()) t)
    (hfailed : saveFails env s.journaled .prepared (s.applied ++ [command]) = true →
      Ensures ({ s with applied := s.applied ++ [command] }.failing
          (.journal (journalOf .prepared (s.applied ++ [command]))))
        (onFailure >>= fun _ => (fail .io : Program Unit)) (Safe b) Q) :
    Ensures s (journalRollback env command onFailure) (Safe b) Q := by
  have hjournal := journal_concat hphase s.applied command
  unfold journalRollback
  refine ensures_bind (ensures_setApplied hs hs' ?_)
  refine ensures_bind (ensures_attempt (ensures_persistJournal hs' ?_ ?_ ?_))
  · intro hnone
    refine ensures_pure hs' (hok _ ?_ rfl rfl hphase rfl rfl rfl (fun _ h => .inl h) (fun _ => rfl) hs')
    unfold saveFails
    by_cases hon : s.journaled = true
    · rw [hjournal, if_pos hon] at hnone
      cases hnone
    · rw [Bool.eq_false_iff.mpr hon]
      rfl
  · intro journal hsome hsaves
    by_cases hon : s.journaled = true
    · rw [hjournal, if_pos hon, Option.some.injEq] at hsome
      subst hsome
      have hsaved : Safe b { s with
          applied := s.applied ++ [command]
          file := some (journalOf .prepared (s.applied ++ [command])) } := by
        refine Tracked.recoverable ht fun journal hheld => ?_
        cases hheld
        exact fun _ hmem => hmem
      refine ⟨hsaved, ensures_pure hsaved (hok _ ?_ rfl rfl hphase rfl rfl rfl (fun journal hheld => ?_)
        (fun hoff => ?_) hsaved)⟩
      · unfold saveFails
        rw [hsaves, Bool.and_false]
      · cases hheld
        exact .inr rfl
      · rw [hon] at hoff
        cases hoff
    · rw [hjournal, if_neg hon] at hsome
      cases hsome
  · intro journal hsome hfails
    by_cases hon : s.journaled = true
    · rw [hjournal, if_pos hon, Option.some.injEq] at hsome
      subst hsome
      refine ⟨hs', hfailed ?_⟩
      unfold saveFails
      rw [hon, hfails]
      rfl
    · rw [hjournal, if_neg hon] at hsome
      cases hsome

theorem ensures_applyOperation (h : Preparing b mtu s) (hsound : Sound b mtu operation)
    (hfresh : FreshFor s.applied operation)
    (hprecede : prejournaled beforeMutation operation = true → MayPrecede operation) :
    Ensures s (applyOperation env beforeMutation operation) (Safe b)
      (Ended b mtu s
        (operationExit env s.journaled beforeMutation operation s.applied s.host)) := by
  have hconcat : s.applied ++ [operation.rollback] ≠ [] := by simp
  unfold applyOperation operationExit
  split
  · next hpre =>
    obtain ⟨htuntap, hlink⟩ := hprecede hpre
    -- ahead of the change: the rollback is listed while its object is as before
    have hpushed : Tracked b mtu (s.applied ++ [operation.rollback]) s.host :=
      h.tracked.pushed hsound hfresh htuntap hlink
    refine ensures_bind (ensures_journalRollback operation.rollback h.phase h.safe h.safe hpushed ?_ ?_)
    · intro t hsaves hhost happlied hphase hjournaled hrefused hfailure hfile hunjournaled hsafe
      have hsub : ∀ journal, t.file = some journal → journal.rollback ⊆ t.applied := by
        intro journal hjournal
        rcases hfile journal hjournal with hold | hnew
        · rw [happlied]
          exact fun _ hmem => List.mem_append_left _ (h.file journal hold hmem)
        · rw [hnew]
          exact fun _ hmem => hmem
      have hoff : t.journaled = false → t.file = none := by
        intro hoff
        rw [hunjournaled (hjournaled ▸ hoff), h.unjournaled (hjournaled ▸ hoff)]
      have ht : Tracked b mtu t.applied t.host := by
        rw [hhost, happlied]
        exact hpushed
      dsimp only
      rw [hsaves, if_neg Bool.false_ne_true]
      refine ensures_mutate operation.apply ht hsafe hoff ?_ ?_
      · intro h' hrun
        have hrun' := hrun
        rw [hhost] at hrun
        rw [hrun]
        have hexecute : execute env.connected operation.apply s.host = .ok h' := execute_of_runApply hrun
        have hmutated : Tracked b mtu t.applied h' := by
          rw [happlied]
          exact h.tracked.mutated hsound hfresh hexecute
        have hsafe' : Safe b { t with host := h' } := hmutated.recoverable hsub
        refine ⟨hsafe', rfl, ⟨⟨hmutated, hsub, fun hempty => ?_, hoff⟩, hphase,
          hfailure.trans h.unfailed⟩, happlied, rfl, hrefused, hjournaled⟩
        exact absurd (happlied ▸ hempty) hconcat
      · intro cause error r u hrun hreversed
        rw [hhost] at hrun
        rw [hrun]
        exact ⟨⟨error, rfl⟩, t.failing (.command operation.apply), r, happlied, hrefused, hjournaled,
          Machine.failure_failing (hfailure.trans h.unfailed) _, hreversed⟩
    · intro hsaves
      dsimp only
      rw [hsaves, if_pos rfl]
      -- the journal was not written, and the entry is taken off the list again
      refine ensures_bind (ensures_setApplied h.safe h.safe (ensures_fail h.safe ?_))
      refine ⟨⟨.io, rfl⟩, ⟨?_, ?_, ?_, h.unjournaled⟩, List.dropLast_concat, rfl, rfl,
        Machine.failure_failing h.unfailed _⟩
      · show Tracked b mtu (s.applied ++ [operation.rollback]).dropLast s.host
        rw [List.dropLast_concat]
        exact h.tracked
      · show ∀ journal, s.file = some journal → journal.rollback ⊆
          (s.applied ++ [operation.rollback]).dropLast
        rw [List.dropLast_concat]
        exact h.file
      · show (s.applied ++ [operation.rollback]).dropLast = [] → s.file = none
        rw [List.dropLast_concat]
        exact h.empty
  · next hpre =>
    -- behind the change: the host moves first, and the file has less than the list
    refine ensures_bind (ensures_mutate operation.apply h.tracked h.safe h.unjournaled ?_ ?_)
    · intro h' hrun
      rw [hrun]
      have hexecute : execute env.connected operation.apply s.host = .ok h' := execute_of_runApply hrun
      have hmutated : Tracked b mtu (s.applied ++ [operation.rollback]) h' :=
        h.tracked.mutated hsound hfresh hexecute
      have hsub : ∀ journal, s.file = some journal → journal.rollback ⊆ s.applied ++ [operation.rollback] :=
        fun journal hjournal _ hmem => List.mem_append_left _ (h.file journal hjournal hmem)
      have hsafe : Safe b { s with host := h' } := hmutated.recoverable hsub
      refine ⟨hsafe, ensures_journalRollback (s := { s with host := h' }) operation.rollback h.phase hsafe
        hsafe hmutated ?_ ?_⟩
      · intro t hsaves hhost happlied hphase hjournaled hrefused hfailure hfile hunjournaled hsafe'
        dsimp only
        rw [hsaves, if_neg Bool.false_ne_true]
        refine ⟨rfl, ⟨⟨?_, fun journal hjournal => ?_, fun hempty => ?_, fun hoff => ?_⟩, hphase,
          hfailure.trans h.unfailed⟩, happlied, hhost, hrefused, hjournaled⟩
        · rw [hhost, happlied]
          exact hmutated
        · rcases hfile journal hjournal with hold | hnew
          · rw [happlied]
            exact hsub journal hold
          · rw [hnew]
            exact fun _ hmem => hmem
        · exact absurd (happlied ▸ hempty) hconcat
        · exact (hunjournaled (hjournaled ▸ hoff)).trans (h.unjournaled (hjournaled ▸ hoff))
      · intro hsaves
        dsimp only at hsaves ⊢
        rw [hsaves, if_pos rfl]
        -- the journal was not written, and everything is rolled back
        let listed : Machine := { s with host := h', applied := s.applied ++ [operation.rollback] }
        refine ensures_bind (ensures_bind (ensures_attempt ((ensures_rollbackAll
          (s := listed.failing (.journal (journalOf .prepared (s.applied ++ [operation.rollback]))))
          hmutated hsafe h.unjournaled).mono (fun _ h => h) ?_)))
        intro r t hreversed
        refine ensures_pure hreversed.safe (ensures_fail hreversed.safe ?_)
        exact ⟨⟨.io, rfl⟩, listed.failing (.journal (journalOf .prepared (s.applied ++ [operation.rollback]))),
          r, rfl, rfl, rfl, Machine.failure_failing (s := listed) h.unfailed _, hreversed⟩
    · intro cause error r t hrun hreversed
      rw [hrun]
      exact ⟨⟨error, rfl⟩, s.failing (.command operation.apply), r, rfl, rfl, rfl,
        Machine.failure_failing h.unfailed _, hreversed⟩

/-! ## Lists of operations -/

/-- Every operation is sound when its turn comes. -/
def Planned (b : Host) (mtu : Nat) (beforeMutation : Bool) : List CommandSpec → List Operation → Prop
  | _, [] => True
  | applied, operation :: rest =>
    (Sound b mtu operation ∧ FreshFor applied operation ∧
      (prejournaled beforeMutation operation = true → MayPrecede operation)) ∧
    Planned b mtu beforeMutation (applied ++ [operation.rollback]) rest

theorem operationExit_done {journaled : Bool} {applied applied' : List CommandSpec} {h h' : Host}
    (hexit : operationExit env journaled beforeMutation operation applied h = .done applied' h') :
    applied' = applied ++ [operation.rollback] := by
  unfold operationExit at hexit
  dsimp only at hexit
  repeat' split at hexit
  all_goals cases hexit
  all_goals rfl

theorem Ended.trans {exit : Exit} {r : Except PlatformError Unit} {u : Machine}
    (hrefused : t.refused = s.refused) (hjournaled : t.journaled = s.journaled)
    (h : Ended b mtu t exit r u) : Ended b mtu s exit r u := by
  cases exit with
  | done applied host =>
      obtain ⟨hr, hu, happlied, hhost, hrefused', hjournaled'⟩ := h
      exact ⟨hr, hu, happlied, hhost, hrefused'.trans hrefused, hjournaled'.trans hjournaled⟩
  | rolledBack applied failure =>
      obtain ⟨hr, v, r', happlied, hrefused', hjournaled', hfailure, hreversed⟩ := h
      exact ⟨hr, v, r', happlied, hrefused'.trans hrefused, hjournaled'.trans hjournaled, hfailure,
        hreversed⟩
  | abandoned applied failure =>
      obtain ⟨hr, hu, happlied, hrefused', hjournaled', hfailure⟩ := h
      exact ⟨hr, hu, happlied, hrefused'.trans hrefused, hjournaled'.trans hjournaled, hfailure⟩

theorem ensures_applyOperations (operations : List Operation) (h : Preparing b mtu s)
    (hplan : Planned b mtu beforeMutation s.applied operations) :
    Ensures s (applyOperationsJournaled env beforeMutation operations) (Safe b)
      (Ended b mtu s
        (operationsExit env s.journaled beforeMutation operations s.applied s.host)) := by
  induction operations generalizing s with
  | nil => exact ensures_pure h.safe ⟨rfl, h, rfl, rfl, rfl, rfl⟩
  | cons operation rest ih =>
      obtain ⟨⟨hsound, hfresh, hprecede⟩, hrest⟩ := hplan
      unfold applyOperationsJournaled operationsExit
      refine ensures_bind ((ensures_applyOperation h hsound hfresh hprecede).mono (fun _ h => h) ?_)
      intro r t hended
      cases hexit : operationExit env s.journaled beforeMutation operation s.applied s.host with
      | done applied host =>
          rw [hexit] at hended
          obtain ⟨rfl, ht, happlied, hhost, hrefused, hjournaled⟩ := hended
          have hpushed := operationExit_done hexit
          have hplan' : Planned b mtu beforeMutation t.applied rest := by
            rw [happlied, hpushed]
            exact hrest
          have hnext := ih ht hplan'
          rw [happlied, hhost, hjournaled] at hnext
          exact hnext.mono (fun _ h => h) fun r u hu => hu.trans hrefused hjournaled
      | rolledBack applied failure =>
          rw [hexit] at hended
          obtain ⟨⟨error, rfl⟩, hended⟩ := hended
          exact ⟨⟨error, rfl⟩, hended⟩
      | abandoned applied failure =>
          rw [hexit] at hended
          obtain ⟨⟨error, rfl⟩, hended⟩ := hended
          exact ⟨⟨error, rfl⟩, hended⟩

end Peerward.Platform
