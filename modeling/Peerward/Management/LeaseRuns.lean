import Peerward.Management.Leases

/-!
# What a lease grants over a run

A permission is traced back through the history: `active` to the delivery that activated it,
`pending` to the delivery that recorded its sequence in the floor. The floor only rises, so each
sequence is recorded once, and its deadline is fixed there.
-/

namespace Peerward.Management

open Std Peerward.Lib

/-- Floors rise, and one sequence keeps one digest. -/
structure AuthorizationFloor.Le (a b : AuthorizationFloor) : Prop where
  version : a.configurationVersion ≤ b.configurationVersion
  sequence : a.leaseSequence ≤ b.leaseSequence
  time : a.timeFloor ≤ b.timeFloor
  digest : a.leaseSequence = b.leaseSequence → a.leaseDigest = b.leaseDigest

theorem AuthorizationFloor.Le.refl (a : AuthorizationFloor) : a.Le a :=
  ⟨Nat.le_refl _, Nat.le_refl _, Nat.le_refl _, fun _ => rfl⟩

theorem AuthorizationFloor.Le.trans {a b c : AuthorizationFloor} (hab : a.Le b) (hbc : b.Le c) :
    a.Le c where
  version := Nat.le_trans hab.version hbc.version
  sequence := Nat.le_trans hab.sequence hbc.sequence
  time := Nat.le_trans hab.time hbc.time
  digest := by
    intro heq
    have hab' : a.leaseSequence = b.leaseSequence := by
      have := hab.sequence
      have := hbc.sequence
      omega
    rw [hab.digest hab', hbc.digest (hab'.symm.trans heq)]

namespace LeaseClock

variable {v : Verifier} {horizon : Nat} {s s' : LeaseClock} {d : Delivery}

/-! ## One delivery

Each part of `install` either has no effect or is described by one lemma: the checks, the recording in the
floor, the activation.
-/

/-- What a delivery that passed every check satisfies. -/
structure Checked (v : Verifier) (s : LeaseClock) (d : Delivery) : Prop where
  manifest : d.manifest.verify v d.key d.mesh = .ok ()
  lease : d.lease.verify v d.key d.mesh = .ok ()
  version : s.floor.configurationVersion ≤ d.manifest.manifest.version
  sequence : s.floor.leaseSequence ≤ d.lease.lease.sequence
  digest : d.lease.lease.sequence = s.floor.leaseSequence →
    v.leaseDigest d.lease.lease = s.floor.leaseDigest

theorem checked_of_ok (h : s.check v d = .ok ()) : Checked v s d := by
  unfold check at h
  obtain ⟨_, hmanifest, h⟩ := bind_eq_ok.mp h
  obtain ⟨_, hlease, h⟩ := bind_eq_ok.mp h
  obtain ⟨_, -, h⟩ := bind_eq_ok.mp h
  obtain ⟨_, hrollback, -⟩ := bind_eq_ok.mp h
  have hfloor := rejectIf_eq_ok.mp hrollback
  simp only [Bool.or_eq_false_iff, decide_eq_false_iff_not, Bool.and_eq_false_iff,
    Nat.not_lt] at hfloor
  obtain ⟨⟨⟨hversion, -⟩, hsequence⟩, hdigest⟩ := hfloor
  refine ⟨hmanifest, hlease, hversion, hsequence, fun heq => ?_⟩
  rcases hdigest with hne | hsame
  · exact absurd heq hne
  · exact not_not.mp hsame

/-- Recording leaves the clock as it is, or replaces all three slots. -/
theorem record_cases (h : s.record v horizon d = .ok s') :
    (¬ s.floor.leaseSequence < d.lease.lease.sequence ∧ s' = s) ∨
    (s.floor.leaseSequence < d.lease.lease.sequence ∧ s'.active = none ∧
      s'.floor.configurationVersion = d.manifest.manifest.version ∧
      s'.floor.leaseSequence = d.lease.lease.sequence ∧
      s'.floor.leaseDigest = v.leaseDigest d.lease.lease ∧
      s.floor.timeFloor ≤ s'.floor.timeFloor ∧
      ∃ deadline, s'.pending = some (d.lease.lease.validUntil, deadline) ∧
        deadline ≤ d.monotonic + d.lease.lease.lifetime) := by
  unfold record at h
  dsimp only at h
  split at h
  · rename_i hnewer
    split at h
    · cases h
    · cases h
      refine .inr ⟨hnewer, rfl, rfl, rfl, rfl, ?_, _, rfl, ?_⟩
      · exact Nat.le_trans (Nat.le_max_right _ _) (Nat.le_max_left _ _)
      · -- the deadline counts from the floor, which is at least the issue time
        unfold AuthorizationLease.lifetime
        refine Nat.add_le_add_left (Nat.mul_le_mul_left _ (Nat.sub_le_sub_left ?_ _)) _
        exact Nat.le_max_right _ _
  · rename_i hold
    exact .inl ⟨hold, (Except.ok.inj h).symm⟩

/-- Activation moves the pending lease or drops it; the floor stays. -/
theorem activate_cases (s : LeaseClock) (d : Delivery) :
    (s.activate d).2.floor = s.floor ∧
    (((s.activate d).1 ≠ .ok true ∧ (s.activate d).2.active = s.active ∧
        ((s.activate d).2.pending = s.pending ∨ (s.activate d).2.pending = none)) ∨
      ∃ granted, (s.activate d).1 = .ok true ∧ s.pending = some granted ∧
        (s.activate d).2.active = some granted ∧ (s.activate d).2.pending = none ∧
        d.manifest.manifest.parts = d.available) := by
  unfold activate
  split
  · exact ⟨rfl, .inl ⟨nofun, rfl, .inl rfl⟩⟩
  · rename_i hparts
    split
    · refine ⟨rfl, .inl ⟨fun h => ?_, rfl, .inl rfl⟩⟩
      cases h
    · rename_i until_ deadline hpending
      dsimp only
      split
      · exact ⟨rfl, .inl ⟨nofun, rfl, .inr rfl⟩⟩
      · exact ⟨rfl, .inr ⟨_, rfl, hpending, rfl, rfl, not_not.mp hparts⟩⟩

/-- A delivery is refused without effect, or recorded and then activated. -/
theorem install_cases (v : Verifier) (horizon : Nat) (s : LeaseClock) (d : Delivery) :
    (¬ Accepts v horizon s d ∧ ∃ failure, s.install v horizon d = (.error failure, s)) ∨
    (Accepts v horizon s d ∧ Checked v s d ∧
      ∃ s', s.record v horizon d = .ok s' ∧ s.install v horizon d = s'.activate d) := by
  unfold install Accepts
  cases hobserve : s.observe v horizon d with
  | error failure => exact .inl ⟨Bool.false_ne_true, failure, rfl⟩
  | ok s' =>
      obtain ⟨_, hcheck, hrecord⟩ := bind_eq_ok.mp hobserve
      exact .inr ⟨rfl, checked_of_ok hcheck, s', hrecord, rfl⟩

theorem record_floor_le (hchecked : Checked v s d) (h : s.record v horizon d = .ok s') :
    s.floor.Le s'.floor := by
  rcases record_cases h with ⟨-, rfl⟩ | ⟨hnewer, -, hversion, hsequence, -, htime, -⟩
  · exact .refl _
  · refine ⟨hversion ▸ hchecked.version, hsequence ▸ hchecked.sequence, htime, ?_⟩
    intro heq
    rw [hsequence] at heq
    omega

/-- After an accepted delivery the floor carries its sequence and digest. -/
theorem floor_of_accepts (h : Accepts v horizon s d) :
    (s.install v horizon d).2.floor.leaseSequence = d.lease.lease.sequence ∧
      (s.install v horizon d).2.floor.leaseDigest = v.leaseDigest d.lease.lease := by
  obtain ⟨-, hchecked, s', hrecord, hinstall⟩ :=
    (install_cases v horizon s d).resolve_left fun hrefused => hrefused.1 h
  rw [hinstall, (activate_cases s' d).1]
  rcases record_cases hrecord with ⟨hold, rfl⟩ | ⟨-, -, -, hsequence, hdigest, -⟩
  · have heq : d.lease.lease.sequence = s'.floor.leaseSequence := by
      have := hchecked.sequence
      omega
    exact ⟨heq.symm, (hchecked.digest heq).symm⟩
  · exact ⟨hsequence, hdigest⟩

/-! ## `valid` -/

/-- `valid` raises the time floor, drops slots and never fills one; it answers yes only for the
permission it leaves in place. -/
theorem valid_cases (s : LeaseClock) (wall monotonic : Nat) :
    (s.valid wall monotonic).2.floor = { s.floor with timeFloor := max s.floor.timeFloor wall } ∧
    ((s.valid wall monotonic).2.pending = s.pending ∨ (s.valid wall monotonic).2.pending = none) ∧
    ((s.valid wall monotonic).1 = true →
      ∃ until_ deadline, s.active = some (until_, deadline) ∧
        (s.valid wall monotonic).2.active = s.active ∧ wall < until_ ∧ monotonic < deadline) ∧
    ((s.valid wall monotonic).1 = false → (s.valid wall monotonic).2.active = none) := by
  unfold valid
  dsimp only
  by_cases hback : saturatingAdd wall MAX_CLOCK_TOLERANCE_SECONDS < s.floor.timeFloor
  · simp [hback]
  · simp only [hback, if_false]
    cases hactive : s.active with
    | none => simp
    | some granted =>
        obtain ⟨until_, deadline⟩ := granted
        by_cases hover : (decide (until_ ≤ wall) || decide (deadline ≤ monotonic)) = true
        · simp [hover]
        · have hin : wall < until_ ∧ monotonic < deadline := by
            simpa only [Bool.or_eq_true, decide_eq_true_eq, not_or, Nat.not_le] using hover
          simp [hover, hin]

theorem leaseSequence_valid (s : LeaseClock) (wall monotonic : Nat) :
    (s.valid wall monotonic).2.floor.leaseSequence = s.floor.leaseSequence := by
  rw [(valid_cases s wall monotonic).1]

/-! ## One step

What a slot holds after a step was there before or is put there by the step. These are the steps the
inductions below take.
-/

theorem step_floor_le (s : LeaseClock) (op : Op) : s.floor.Le (step v horizon s op).floor := by
  cases op with
  | install d =>
      show s.floor.Le (s.install v horizon d).2.floor
      rcases install_cases v horizon s d with ⟨-, failure, h⟩ | ⟨-, hchecked, s', hrecord, h⟩
      · rw [h]
        exact .refl _
      · rw [h, (activate_cases s' d).1]
        exact record_floor_le hchecked hrecord
  | valid wall monotonic =>
      show s.floor.Le (s.valid wall monotonic).2.floor
      rw [(valid_cases s wall monotonic).1]
      exact ⟨Nat.le_refl _, Nat.le_refl _, Nat.le_max_left _ _, fun _ => rfl⟩
  | invalidate | suspend | restart => exact .refl _

/-- A pending lease was pending before under the same sequence, or is recorded by this step. -/
theorem step_pending {op : Op} {until_ deadline : Nat}
    (h : (step v horizon s op).pending = some (until_, deadline)) :
    (s.pending = some (until_, deadline) ∧
      (step v horizon s op).floor.leaseSequence = s.floor.leaseSequence) ∨
    ∃ d, op = .install d ∧ Records v horizon s d ∧ until_ = d.lease.lease.validUntil ∧
      deadline ≤ d.monotonic + d.lease.lease.lifetime ∧
      (step v horizon s op).floor.leaseSequence = d.lease.lease.sequence := by
  cases op with
  | install d =>
      change (s.install v horizon d).2.pending = _ at h
      show _ ∨ ∃ d', Op.install d = .install d' ∧ _
      simp only [step]
      rcases install_cases v horizon s d with
        ⟨-, failure, hinstall⟩ | ⟨haccepts, -, s', hrecord, hinstall⟩
      · rw [hinstall] at h ⊢
        exact .inl ⟨h, rfl⟩
      · rw [hinstall] at h ⊢
        rw [(activate_cases s' d).1]
        -- whatever is pending now was pending after the recording
        have hpending : s'.pending = some (until_, deadline) := by
          rcases (activate_cases s' d).2 with ⟨-, -, hsame | hnone⟩ | ⟨_, -, -, -, hnone, -⟩
          · rw [← hsame]
            exact h
          · rw [hnone] at h
            cases h
          · rw [hnone] at h
            cases h
        rcases record_cases hrecord with
          ⟨-, rfl⟩ | ⟨hnewer, -, -, hsequence, -, -, deadline', hrecorded, hdeadline⟩
        · exact .inl ⟨hpending, rfl⟩
        · obtain ⟨rfl, rfl⟩ : d.lease.lease.validUntil = until_ ∧ deadline' = deadline := by
            simpa using hrecorded.symm.trans hpending
          exact .inr ⟨d, rfl, ⟨hnewer, haccepts⟩, rfl, hdeadline, hsequence⟩
  | valid wall monotonic =>
      change (s.valid wall monotonic).2.pending = _ at h
      refine .inl ⟨?_, leaseSequence_valid s wall monotonic⟩
      rcases (valid_cases s wall monotonic).2.1 with hsame | hnone
      · exact hsame.symm.trans h
      · rw [hnone] at h
        cases h
  | invalidate => exact .inl ⟨h, rfl⟩
  | suspend | restart => cases h

/-- A permission was active before and the step is quiet, or the step activates it. -/
theorem step_active {op : Op} {granted : Nat × Nat}
    (h : (step v horizon s op).active = some granted) :
    (s.active = some granted ∧ Quiet v horizon s op ∧
      (step v horizon s op).floor.leaseSequence = s.floor.leaseSequence) ∨
    ∃ d, op = .install d ∧ Activates v horizon s d := by
  cases op with
  | install d =>
      change (s.install v horizon d).2.active = _ at h
      simp only [step]
      rcases install_cases v horizon s d with
        ⟨hrefused, failure, hinstall⟩ | ⟨haccepts, -, s', hrecord, hinstall⟩
      · rw [hinstall] at h ⊢
        exact .inl ⟨h, fun hrecords => hrefused hrecords.2, rfl⟩
      · obtain ⟨hfloor, ⟨-, hsame, -⟩ | ⟨_, hok, -⟩⟩ := activate_cases s' d
        · rw [hinstall, hsame] at h
          rcases record_cases hrecord with ⟨hold, rfl⟩ | ⟨-, hnone, -⟩
          · exact .inl ⟨h, fun hrecords => hold hrecords.1, by rw [hinstall, hfloor]⟩
          · -- recording a newer sequence drops the permission
            rw [hnone] at h
            cases h
        · exact .inr ⟨d, rfl, by rw [Activates, hinstall, hok]⟩
  | valid wall monotonic =>
      change (s.valid wall monotonic).2.active = _ at h
      obtain ⟨-, -, hyes, hno⟩ := valid_cases s wall monotonic
      cases hvalid : (s.valid wall monotonic).1 with
      | true =>
          obtain ⟨_, _, -, hsame, -⟩ := hyes hvalid
          exact .inl ⟨hsame.symm.trans h, hvalid, leaseSequence_valid s wall monotonic⟩
      | false =>
          rw [hno hvalid] at h
          cases h
  | invalidate | suspend | restart => cases h

/-- What one activation leaves behind. -/
theorem activates_cases (h : Activates v horizon s d) :
    Accepts v horizon s d ∧ Checked v s d ∧ d.manifest.manifest.parts = d.available ∧
      (step v horizon s (.install d)).pending = none ∧
      (step v horizon s (.install d)).floor.leaseSequence = d.lease.lease.sequence ∧
      ∃ until_ deadline, (step v horizon s (.install d)).active = some (until_, deadline) ∧
        ((s.pending = some (until_, deadline) ∧
            s.floor.leaseSequence = d.lease.lease.sequence) ∨
          (Records v horizon s d ∧ until_ = d.lease.lease.validUntil ∧
            deadline ≤ d.monotonic + d.lease.lease.lifetime)) := by
  rcases install_cases v horizon s d with
    ⟨-, failure, hinstall⟩ | ⟨haccepts, hchecked, s', hrecord, hinstall⟩
  · rw [Activates, hinstall] at h
    cases h
  · have hsequence := (floor_of_accepts haccepts).1
    rw [Activates, hinstall] at h
    simp only [step, hinstall] at hsequence ⊢
    obtain ⟨-, ⟨hne, -⟩ | ⟨⟨until_, deadline⟩, -, hpending, hactive, hnone, hparts⟩⟩ :=
      activate_cases s' d
    · exact absurd h hne
    · refine ⟨haccepts, hchecked, hparts, hnone, hsequence, until_, deadline, hactive, ?_⟩
      rcases record_cases hrecord with
        ⟨hold, rfl⟩ | ⟨hnewer, -, -, -, -, -, deadline', hrecorded, hdeadline⟩
      · refine .inl ⟨hpending, ?_⟩
        have := hchecked.sequence
        omega
      · obtain ⟨rfl, rfl⟩ : d.lease.lease.validUntil = until_ ∧ deadline' = deadline := by
          simpa using hrecorded.symm.trans hpending
        exact .inr ⟨⟨hnewer, haccepts⟩, rfl, hdeadline⟩

/-! ## Every run

A permission leads back to the delivery that activated it, and this one to the moment at which its sequence
was recorded. In between nothing has invalidated it, or it would not be there.
-/

section Runs

variable (v horizon) (start : LeaseClock) (ops : List Op)

/-- The state a run reaches. -/
def after (ops : List Op) : LeaseClock := exec (step v horizon) start ops

/-- Some delivery of the run was accepted. -/
def Accepted (d : Delivery) : Prop :=
  Happened (step v horizon) start (fun s op => op = .install d ∧ Accepts v horizon s d) ops

/-- Some delivery of the run started a permission. -/
def Activated (d : Delivery) : Prop :=
  Happened (step v horizon) start (fun s op => op = .install d ∧ Activates v horizon s d) ops

/-- The delivery recorded its sequence in this run, and neither a suspension nor a restart came
between. -/
def Observed (d : Delivery) : Prop :=
  ∃ before since, ops = before ++ .install d :: since ∧
    Records v horizon (after v horizon start before) d ∧
    ∀ op ∈ since, op ≠ .suspend ∧ op ≠ .restart

/-- `valid(wall, monotonic)` is covered by a delivery of this run of the process: it was activated
with every dependency present, left alone since, and neither clock has passed what its lease signs
for, the monotonic one counted from the instant its sequence was recorded. -/
def Granted (wall monotonic : Nat) : Prop :=
  ∃ before d since, ops = before ++ .install d :: since ∧
    Activates v horizon (after v horizon start before) d ∧
    d.manifest.verify v d.key d.mesh = .ok () ∧ d.lease.verify v d.key d.mesh = .ok () ∧
    d.manifest.manifest.parts = d.available ∧
    Along (fun between op => Quiet v horizon
      (after v horizon start (before ++ .install d :: between)) op) since ∧
    wall < d.lease.lease.validUntil ∧
    ∃ first, Observed v horizon start (before ++ [.install d]) first ∧
      first.lease.lease = d.lease.lease ∧
      monotonic < first.monotonic + d.lease.lease.lifetime

end Runs

variable {start : LeaseClock} {ops : List Op}

theorem after_concat (op : Op) :
    after v horizon start (ops ++ [op]) = step v horizon (after v horizon start ops) op :=
  exec_concat _ _ _ _

theorem floor_le_along {before : List Op} (h : before <+: ops) :
    (after v horizon start before).floor.Le (after v horizon start ops).floor := by
  obtain ⟨rest, rfl⟩ := h
  induction rest using List.reverseRecOn with
  | nil =>
      rw [List.append_nil]
      exact .refl _
  | append_singleton rest op ih =>
      rw [← List.append_assoc, after_concat]
      exact ih.trans (step_floor_le _ op)

/-- An accepted sequence is below the floor, and the floor's own has the floor's digest. -/
theorem Accepted.le_floor (h : Accepted v horizon start ops d) :
    d.lease.lease.sequence ≤ (after v horizon start ops).floor.leaseSequence ∧
      (d.lease.lease.sequence = (after v horizon start ops).floor.leaseSequence →
        v.leaseDigest d.lease.lease = (after v horizon start ops).floor.leaseDigest) := by
  obtain ⟨before, op, rest, rfl, rfl, haccepts⟩ := h
  obtain ⟨hsequence, hdigest⟩ := floor_of_accepts haccepts
  have hle : (after v horizon start (before ++ [.install d])).floor.Le
      (after v horizon start (before ++ .install d :: rest)).floor :=
    floor_le_along ⟨rest, by simp⟩
  rw [after_concat] at hle
  change (install v horizon (after v horizon start before) d).2.floor.Le _ at hle
  change (install v horizon (after v horizon start before) d).2.floor.leaseSequence = _ at hsequence
  refine ⟨hsequence ▸ hle.sequence, fun heq => ?_⟩
  rw [← hle.digest (hsequence.trans heq)]
  exact hdigest.symm

/-- One sequence is accepted with one digest only. -/
theorem Accepted.digest_eq {d' : Delivery} (h : Accepted v horizon start ops d)
    (h' : Accepted v horizon start ops d')
    (hsequence : d.lease.lease.sequence = d'.lease.lease.sequence) :
    v.leaseDigest d.lease.lease = v.leaseDigest d'.lease.lease := by
  induction ops using List.reverseRecOn with
  | nil => exact absurd h happened_nil
  | append_singleton ops op ih =>
      have hfloor := h.le_floor
      have hfloor' := h'.le_floor
      -- the later of the two fixes the floor's digest
      rcases happened_concat.mp h with hbefore | ⟨rfl, haccepts⟩
      · rcases happened_concat.mp h' with hbefore' | ⟨rfl, haccepts'⟩
        · exact ih hbefore hbefore'
        · have hnow := (floor_of_accepts haccepts').1
          rw [after_concat] at hfloor hfloor'
          rw [hfloor.2 (hsequence.trans hnow.symm), hfloor'.2 hnow.symm]
      · have hnow := (floor_of_accepts haccepts).1
        rw [after_concat] at hfloor hfloor'
        rw [hfloor.2 hnow.symm, hfloor'.2 (hsequence.symm.trans hnow.symm)]

/-- A lease that is pending was recorded since the last suspension or restart. -/
theorem observed_of_pending (hstart : start.pending = none) {until_ deadline : Nat}
    (h : (after v horizon start ops).pending = some (until_, deadline)) :
    ∃ d, Observed v horizon start ops d ∧ until_ = d.lease.lease.validUntil ∧
      deadline ≤ d.monotonic + d.lease.lease.lifetime ∧
      d.lease.lease.sequence = (after v horizon start ops).floor.leaseSequence := by
  induction ops using List.reverseRecOn with
  | nil =>
      change start.pending = _ at h
      rw [hstart] at h
      cases h
  | append_singleton ops op ih =>
      rw [after_concat] at h ⊢
      rcases step_pending h with ⟨hbefore, hfloor⟩ | ⟨d, rfl, hrecords, huntil, hdeadline, hfloor⟩
      · obtain ⟨d, ⟨before, since, heq, hrecords, hsince⟩, huntil, hdeadline, hsequence⟩ := ih hbefore
        refine ⟨d, ⟨before, since ++ [op], ?_, hrecords, ?_⟩, huntil, hdeadline,
          hsequence.trans hfloor.symm⟩
        · rw [heq, List.append_assoc, List.cons_append]
        · intro op' hop'
          rcases List.mem_append.mp hop' with hmem | hlast
          · exact hsince op' hmem
          · rw [List.mem_singleton] at hlast
            subst hlast
            refine ⟨?_, ?_⟩ <;>
            · rintro rfl
              cases h
      · exact ⟨d, ⟨ops, [], rfl, hrecords, fun _ hmem => by cases hmem⟩, huntil, hdeadline, hfloor.symm⟩

theorem Observed.accepted (h : Observed v horizon start ops d) : Accepted v horizon start ops d := by
  obtain ⟨before, since, heq, hrecords, -⟩ := h
  exact ⟨before, _, since, heq, rfl, hrecords.2⟩

/-- A permission goes back to its activation, and through it to the recording of its sequence. -/
theorem granted_of_active (hactive : start.active = none) (hpending : start.pending = none)
    {until_ deadline : Nat} (h : (after v horizon start ops).active = some (until_, deadline)) :
    ∃ before d since, ops = before ++ .install d :: since ∧
      Activates v horizon (after v horizon start before) d ∧
      Along (fun between op => Quiet v horizon
        (after v horizon start (before ++ .install d :: between)) op) since ∧
      d.lease.lease.sequence = (after v horizon start ops).floor.leaseSequence ∧
      ∃ first, Observed v horizon start (before ++ [.install d]) first ∧
        first.lease.lease.sequence = d.lease.lease.sequence ∧
        until_ = first.lease.lease.validUntil ∧
        deadline ≤ first.monotonic + first.lease.lease.lifetime := by
  induction ops using List.reverseRecOn with
  | nil =>
      change start.active = _ at h
      rw [hactive] at h
      cases h
  | append_singleton ops op ih =>
      rw [after_concat] at h ⊢
      rcases step_active h with ⟨hbefore, hquiet, hfloor⟩ | ⟨d, rfl, hactivates⟩
      · obtain ⟨before, d, since, rfl, hactivates, halong, hsequence, hfirst⟩ := ih hbefore
        refine ⟨before, d, since ++ [op], by simp, hactivates, along_concat.mpr ⟨halong, hquiet⟩,
          hsequence.trans hfloor.symm, hfirst⟩
      · obtain ⟨-, -, -, -, hsequence, until', deadline', hnow, hsource⟩ := activates_cases hactivates
        obtain ⟨rfl, rfl⟩ : until' = until_ ∧ deadline' = deadline := by simpa using hnow.symm.trans h
        refine ⟨ops, d, [], rfl, hactivates, along_nil, hsequence.symm, ?_⟩
        rcases hsource with ⟨hwaiting, hsame⟩ | ⟨hrecords, huntil, hdeadline⟩
        · obtain ⟨first, ⟨b, since, heq, hrecords, hsince⟩, huntil, hdeadline, hfirst⟩ :=
            observed_of_pending hpending hwaiting
          refine ⟨first, ⟨b, since ++ [.install d], by rw [heq]; simp, hrecords, ?_⟩,
            hfirst.trans hsame, huntil, hdeadline⟩
          intro op hop
          rcases List.mem_append.mp hop with hmem | hlast
          · exact hsince op hmem
          · rw [List.mem_singleton.mp hlast]
            exact ⟨nofun, nofun⟩
        · exact ⟨d, ⟨ops, [], rfl, hrecords, fun _ hmem => by cases hmem⟩, rfl, huntil, hdeadline⟩

/-- Once a sequence has been activated nothing is pending for it any more. -/
theorem Activated.spent (h : Activated v horizon start ops d) :
    d.lease.lease.sequence ≤ (after v horizon start ops).floor.leaseSequence ∧
      (d.lease.lease.sequence = (after v horizon start ops).floor.leaseSequence →
        (after v horizon start ops).pending = none) := by
  induction ops using List.reverseRecOn with
  | nil => exact absurd h happened_nil
  | append_singleton ops op ih =>
      rw [after_concat]
      rcases happened_concat.mp h with hbefore | ⟨rfl, hactivates⟩
      · obtain ⟨hle, hspent⟩ := ih hbefore
        have hfloor := @step_floor_le v horizon (after v horizon start ops) op
        refine ⟨Nat.le_trans hle hfloor.sequence, fun heq => ?_⟩
        cases hpending : (step v horizon (after v horizon start ops) op).pending with
        | none => rfl
        | some waiting =>
            have hrises := hfloor.sequence
            rcases step_pending hpending with ⟨hbefore, -⟩ | ⟨d', -, hrecords, -, -, hrecorded⟩
            · rw [hspent (by omega)] at hbefore
              cases hbefore
            · have := hrecords.1
              omega
      · obtain ⟨-, -, -, hnone, hsequence, -⟩ := activates_cases hactivates
        exact ⟨Nat.le_of_eq hsequence.symm, fun _ => hnone⟩

/-- A sequence is activated at most once. -/
theorem not_activates_of_activated {d' : Delivery} (h : Activated v horizon start ops d)
    (hsequence : d.lease.lease.sequence = d'.lease.lease.sequence) :
    ¬ Activates v horizon (after v horizon start ops) d' := by
  intro hactivates
  obtain ⟨hle, hspent⟩ := h.spent
  obtain ⟨-, hchecked, -, -, -, until_, deadline, -, hsource⟩ := activates_cases hactivates
  have hfloor := hchecked.sequence
  rcases hsource with ⟨hwaiting, -⟩ | ⟨hrecords, -⟩
  · rw [hspent (by omega)] at hwaiting
    cases hwaiting
  · have := hrecords.1
    omega

/-- The grant behind a `valid` that answers yes, if no two leases of the run share a digest. -/
theorem granted_of_valid (hactive : start.active = none) (hpending : start.pending = none)
    (hcollision : ∀ d d', .install d ∈ ops → .install d' ∈ ops →
      v.leaseDigest d.lease.lease = v.leaseDigest d'.lease.lease → d.lease.lease = d'.lease.lease)
    {wall monotonic : Nat} (h : ((after v horizon start ops).valid wall monotonic).1 = true) :
    Granted v horizon start ops wall monotonic := by
  obtain ⟨until_, deadline, hgranted, -, hwall, hmonotonic⟩ := (valid_cases _ wall monotonic).2.2.1 h
  obtain ⟨before, d, since, rfl, hactivates, halong, -, first, hobserved, hsequence, huntil,
    hdeadline⟩ := granted_of_active hactive hpending hgranted
  obtain ⟨haccepts, hchecked, hparts, -⟩ := activates_cases hactivates
  have haccepted : Accepted v horizon start (before ++ [.install d]) d :=
    ⟨before, _, [], rfl, rfl, haccepts⟩
  -- one sequence has one digest, so the recorded lease is the activated one
  have hlease : first.lease.lease = d.lease.lease := by
    refine hcollision first d ?_ (by simp) (hobserved.accepted.digest_eq haccepted hsequence)
    obtain ⟨b, rest, heq, -⟩ := hobserved
    have hmem : Op.install first ∈ before ++ [.install d] := by rw [heq]; simp
    simp only [List.mem_append, List.mem_cons] at hmem ⊢
    tauto
  rw [hlease] at huntil hdeadline
  refine ⟨before, d, since, rfl, hactivates, hchecked.manifest, hchecked.lease, hparts, halong,
    huntil ▸ hwall, first, hobserved, hlease, ?_⟩
  exact Nat.lt_of_lt_of_le hmonotonic hdeadline

/-- After a `valid` that said no, a later yes needs a newer sequence than any activated before. -/
theorem sequence_lt_of_valid_again (hactive : start.active = none) (hpending : start.pending = none)
    {before rest : List Op} {wall monotonic : Nat}
    (heq : ops = before ++ .valid wall monotonic :: rest)
    (hno : ((after v horizon start before).valid wall monotonic).1 = false)
    (hactivated : Activated v horizon start before d) {wall' monotonic' : Nat}
    (hyes : ((after v horizon start ops).valid wall' monotonic').1 = true) :
    d.lease.lease.sequence < (after v horizon start ops).floor.leaseSequence := by
  have hall : Activated v horizon start ops d := by
    obtain ⟨b, op, a, rfl, hop⟩ := hactivated
    exact ⟨b, op, a ++ .valid wall monotonic :: rest, by rw [heq]; simp, hop⟩
  refine Nat.lt_of_le_of_ne hall.spent.1 fun hsame => ?_
  obtain ⟨until_, deadline, hgranted, -⟩ := (valid_cases _ wall' monotonic').2.2.1 hyes
  obtain ⟨b, d', since, hops, hactivates, halong, hsequence, -⟩ :=
    granted_of_active hactive hpending hgranted
  -- the activation in force is not later than the `no`, which it would have to survive
  rcases List.append_eq_append_iff.mp (heq.symm.trans hops) with
    ⟨mid, rfl, hmid⟩ | ⟨mid, rfl, hmid⟩
  · cases mid with
    | nil => cases (List.cons.inj hmid).1
    | cons op mid =>
        obtain ⟨rfl, -⟩ := List.cons.inj hmid
        have hearlier : Activated v horizon start (before ++ .valid wall monotonic :: mid) d := by
          obtain ⟨b', op', a', rfl, hop'⟩ := hactivated
          exact ⟨b', op', a' ++ .valid wall monotonic :: mid, by simp, hop'⟩
        exact not_activates_of_activated hearlier (hsame.trans hsequence.symm) hactivates
  · cases mid with
    | nil => cases (List.cons.inj hmid).1
    | cons op mid =>
        have hinj := List.cons.inj hmid
        obtain rfl := hinj.1
        have hquiet : ((after v horizon start (b ++ .install d' :: mid)).valid wall monotonic).1
            = true := halong mid _ rest hinj.2
        rw [hno] at hquiet
        cases hquiet

/-- **A lease grants at most its signed lifetime.** Over every run of one persisted floor, with any
clocks and any restarts: the floor only rises and one sequence keeps one digest; every `valid` that
answers yes is covered by a delivery of the same process that was verified, complete and undisturbed
since, within both deadlines; and after a no, a replay never gets another yes. -/
theorem lease_grants_at_most_its_lifetime (v : Verifier) (horizon : Nat)
    (floor : AuthorizationFloor) (ops : List Op)
    (hcollision : ∀ d d', .install d ∈ ops → .install d' ∈ ops →
      v.leaseDigest d.lease.lease = v.leaseDigest d'.lease.lease → d.lease.lease = d'.lease.lease) :
    (∀ before, before <+: ops →
      (after v horizon (new floor) before).floor.Le (after v horizon (new floor) ops).floor) ∧
    (∀ d d', Accepted v horizon (new floor) ops d → Accepted v horizon (new floor) ops d' →
      d.lease.lease.sequence = d'.lease.lease.sequence →
        v.leaseDigest d.lease.lease = v.leaseDigest d'.lease.lease) ∧
    (∀ wall monotonic, ((after v horizon (new floor) ops).valid wall monotonic).1 = true →
      Granted v horizon (new floor) ops wall monotonic) ∧
    (∀ before wall monotonic rest, ops = before ++ .valid wall monotonic :: rest →
      ((after v horizon (new floor) before).valid wall monotonic).1 = false →
      ∀ d, Activated v horizon (new floor) before d → ∀ wall' monotonic',
        ((after v horizon (new floor) ops).valid wall' monotonic').1 = true →
          d.lease.lease.sequence < (after v horizon (new floor) ops).floor.leaseSequence) := by
  refine ⟨fun before => floor_le_along, fun d d' h h' => h.digest_eq h', ?_, ?_⟩
  · intro wall monotonic h
    exact granted_of_valid rfl rfl hcollision h
  · intro before wall monotonic rest heq hno d hactivated wall' monotonic' hyes
    exact sequence_lt_of_valid_again rfl rfl heq hno hactivated hyes

/-! ## A lease presented too early

The wall clock is far behind when a lease is first presented, and the delivery is refused. Accepted later,
the lease lasts its lifetime from then on.
-/

/-- Signatures that all verify, and digests that tell sequences apart. -/
def acceptAll : Verifier where
  signedManifest _ _ _ := true
  signedLease _ _ _ := true
  manifestDigest _ := 7
  leaseDigest lease := BitVec.ofNat 256 lease.sequence

def someMesh : Types.MeshId := ⟨0x00000000000040008000000000000001#128, Types.random_one⟩

def sixParts : Parts :=
  let kinds : List ConfigurationPart := [.authorities, .peers, .policy, .resources, .dns, .revocations]
  ExtTreeMap.ofList (kinds.map fun kind => (kind, (⟨1, 0⟩ : ComponentReference)))

/-- A lease for 300 seconds issued at second 1000, delivered at a time of both clocks. -/
def delivered (seconds : Nat) : Delivery where
  manifest := ⟨{ meshId := someMesh, version := 1, parts := sixParts }, []⟩
  lease := ⟨⟨someMesh, 7, 1, 1000, 1300⟩, []⟩
  key := 0
  mesh := someMesh
  available := sixParts
  wall := seconds
  monotonic := seconds * SECOND

/-- The first presentation is refused because the wall clock is far behind; the lease accepted
later is good for longer than its lifetime counted from there. -/
theorem grant_outlives_first_presentation :
    ((new {}).install acceptAll (2 ^ 64) (delivered 0)).1 = .error .expired ∧
    ((after acceptAll (2 ^ 64) (new {}) [.install (delivered 0), .install (delivered 1000)]).valid
      1000 (1000 * SECOND)).1 = true ∧
    ¬ 1000 * SECOND < (delivered 0).monotonic + (delivered 0).lease.lease.lifetime := by
  decide +kernel

/-- One delivery on time, and the permission it gives. -/
theorem delivered_on_time_is_granted :
    ((after acceptAll (2 ^ 64) (new {}) [.install (delivered 1000)]).valid 1000 (1000 * SECOND)).1
      = true ∧
    Granted acceptAll (2 ^ 64) (new {}) [.install (delivered 1000)] 1000 (1000 * SECOND) := by
  have hyes : ((after acceptAll (2 ^ 64) (new {}) [.install (delivered 1000)]).valid
      1000 (1000 * SECOND)).1 = true := by decide +kernel
  refine ⟨hyes, (lease_grants_at_most_its_lifetime acceptAll (2 ^ 64) {} _ ?_).2.2.1 _ _ hyes⟩
  intro d d' hd hd' _
  rw [List.mem_singleton, Op.install.injEq] at hd hd'
  rw [hd, hd']

end LeaseClock

end Peerward.Management
