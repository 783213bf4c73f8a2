import Peerward.Policy.EvaluatorTables

/-!
# The denial audit throttle

Audits of one flow are at least `denialInterval` apart, and within less than an interval there are
no more audits than the throttle has places: a live entry is neither dropped by the reclamation nor
pushed out by other flows. The throttle decides about audits only: two evaluators that differ in
nothing but the throttle deny the same packets.
-/

namespace Peerward.IdentityPolicy

open Std Peerward.Lib Peerward.Net Peerward.Types

namespace Evaluator

/-! ## The throttle of an evaluation -/

section Throttle

variable (evaluator : Evaluator)

@[simp] theorem removeState_denialAudits (key : FlowKey) :
    (evaluator.removeState key).denialAudits = evaluator.denialAudits := by
  unfold removeState
  split <;> rfl

@[simp] theorem expireLoop_denialAudits (now budget : Nat) :
    (evaluator.expireLoop now budget).denialAudits = evaluator.denialAudits := by
  induction budget generalizing evaluator with
  | zero => rfl
  | succ budget ih =>
      unfold expireLoop
      split
      · rfl
      · split
        · rfl
        · rw [ih, removeState_denialAudits]

@[simp] theorem stateValid_denialAudits (key : FlowKey) (now : Nat) (refresh : Bool) :
    (evaluator.stateValid key now refresh).2.denialAudits = evaluator.denialAudits := by
  unfold stateValid
  split
  · rfl
  · split
    · exact removeState_denialAudits _ _
    · split <;> rfl

@[simp] theorem anyValid_denialAudits (now : Nat) (keys : List (FlowKey × Bool)) :
    (evaluator.anyValid now keys).2.denialAudits = evaluator.denialAudits := by
  induction keys generalizing evaluator with
  | nil => rfl
  | cons entry keys ih =>
      have hfirst := evaluator.stateValid_denialAudits entry.1 now entry.2
      unfold anyValid
      split
      · next heq => rwa [heq] at hfirst
      · next heq =>
        rw [heq] at hfirst
        exact (ih _).trans hfirst

@[simp] theorem insertState_denialAudits (flow : FlowKey) (now : Nat) :
    (evaluator.insertState flow now).denialAudits = evaluator.denialAudits := by
  rw [insertState_eq]
  split
  · rfl
  · show evaluator.makeRoom.denialAudits = evaluator.denialAudits
    unfold makeRoom
    split
    · split
      · exact removeState_denialAudits _ _
      · rfl
    · rfl

end Throttle

/-- **What an evaluation does to the throttle.** A packet that passes leaves it alone; a denial asks
it about the packet's own flow. -/
theorem evaluate_audits {evaluator : Evaluator} (h : evaluator.Consistent) (packet : Packet)
    (now : Nat) :
    ((evaluator.evaluate packet now).1.emitDenialAudit = false ∧
        (evaluator.evaluate packet now).2.denialAudits = evaluator.denialAudits) ∨
      ∃ before : Evaluator, before.Consistent ∧ before.denialAudits = evaluator.denialAudits ∧
        before.settings = evaluator.settings ∧
        (evaluator.evaluate packet now).1.emitDenialAudit =
          (before.admitDenialAudit packet.flow now).1 ∧
        (evaluator.evaluate packet now).2.denialAudits =
          (before.admitDenialAudit packet.flow now).2.denialAudits := by
  have hchecked : (evaluator.checked packet now).2.denialAudits = evaluator.denialAudits := by
    simp [checked, expireSome]
  have hdenied : ∃ before : Evaluator, before.Consistent ∧ before.denialAudits = evaluator.denialAudits ∧
      before.settings = evaluator.settings ∧ before = (evaluator.checked packet now).2 :=
    ⟨_, h.checked packet now, hchecked, evaluator.checked_settings packet now, rfl⟩
  have hcases := evaluator.evaluates packet now
  generalize evaluator.evaluate packet now = result at hcases ⊢
  cases hcases with
  | foreign => exact .inr ⟨evaluator.expireSome now, h.expireSome now, expireLoop_denialAudits _ _ _,
      expireLoop_settings _ _ _, rfl, rfl⟩
  | passed => exact .inl ⟨rfl, hchecked⟩
  | opened => exact .inl ⟨rfl, (insertState_denialAudits _ _ _).trans hchecked⟩
  | barred =>
      obtain ⟨before, hconsistent, hthrottle, hsettings, rfl⟩ := hdenied
      exact .inr ⟨_, hconsistent, hthrottle, hsettings, rfl, rfl⟩
  | refused =>
      obtain ⟨before, hconsistent, hthrottle, hsettings, rfl⟩ := hdenied
      exact .inr ⟨_, hconsistent, hthrottle, hsettings, rfl, rfl⟩

/-! ## Reclamation

An entry of the throttle lives for one interval. So a flow that was audited is remembered for as long as
another audit of it would be too early.
-/

theorem Consistent.reclaimAudits_none {evaluator : Evaluator} (h : evaluator.Consistent)
    (now budget : Nat) {flow : FlowKey} (hnone : evaluator.denialAudits[flow]? = none) :
    (evaluator.reclaimAudits now budget).denialAudits[flow]? = none := by
  induction budget generalizing evaluator with
  | zero => exact hnone
  | succ budget ih =>
      unfold Evaluator.reclaimAudits
      split
      · exact hnone
      · next last key hfirst =>
        split
        · exact hnone
        · obtain ⟨audit, haudit, rfl⟩ := h.denials.first? hfirst
          refine ih ⟨h.expirations, h.recency, h.states_le, h.denials.erase haudit,
            ExtTreeMap.size_erase_le.trans h.audits_le⟩ ?_
          simp [ExtTreeMap.getElem?_erase, hnone]

/-- An entry is kept until its interval is over. -/
theorem Consistent.reclaimAudits_some {evaluator : Evaluator} (h : evaluator.Consistent)
    (now budget : Nat) {flow : FlowKey} {last : Nat}
    (hlast : evaluator.denialAudits[flow]? = some last) :
    (evaluator.reclaimAudits now budget).denialAudits[flow]? = some last ∨
      ((evaluator.reclaimAudits now budget).denialAudits[flow]? = none ∧
        evaluator.denialInterval ≤ now - last) := by
  induction budget generalizing evaluator with
  | zero => exact .inl hlast
  | succ budget ih =>
      unfold Evaluator.reclaimAudits
      split
      · exact .inl hlast
      · next due key hfirst =>
        split
        · exact .inl hlast
        · next hover =>
          obtain ⟨audit, haudit, rfl⟩ := h.denials.first? hfirst
          have hrest : Consistent { evaluator with
              denialExpirations := evaluator.denialExpirations.erase (id audit, key)
              denialAudits := evaluator.denialAudits.erase key } :=
            ⟨h.expirations, h.recency, h.states_le, h.denials.erase haudit,
              ExtTreeMap.size_erase_le.trans h.audits_le⟩
          by_cases hkey : key = flow
          · subst hkey
            cases Option.some.inj (haudit.symm.trans hlast)
            exact .inr ⟨hrest.reclaimAudits_none _ _ (by simp), by simpa using hover⟩
          · exact ih hrest (by
              simpa [ExtTreeMap.getElem?_erase, LawfulEqOrd.compare_eq_iff_eq, hkey] using hlast)

/-- **What a denial does to the throttle entry of a flow** that was last audited at `last`: the entry
stays, or its interval is over, or the flow is audited once more. -/
theorem Consistent.admit_some {evaluator : Evaluator} (h : evaluator.Consistent)
    (hinterval : 0 < evaluator.denialInterval) (other : FlowKey) (now : Nat) {flow : FlowKey}
    {last : Nat} (hlast : evaluator.denialAudits[flow]? = some last) :
    ((evaluator.admitDenialAudit other now).2.denialAudits[flow]? = some last ∧
        (flow = other → (evaluator.admitDenialAudit other now).1 = false)) ∨
      (last + evaluator.denialInterval ≤ now ∧
        ((evaluator.admitDenialAudit other now).2.denialAudits[flow]? = some now ∨
          (evaluator.admitDenialAudit other now).2.denialAudits[flow]? = none)) := by
  have hreclaimed := h.reclaimAudits_some now (max evaluator.expiryBudget 1) hlast
  change (evaluator.reclaimed now).denialAudits[flow]? = some last ∨
    ((evaluator.reclaimed now).denialAudits[flow]? = none ∧ _) at hreclaimed
  have hsame : (evaluator.reclaimed now).denialInterval = evaluator.denialInterval :=
    congrArg Settings.denialInterval (reclaimAudits_settings _ _ _)
  rcases evaluator.admitDenialAudit_cases other now with ⟨hzero, -⟩ | ⟨-, hlate, -, heq⟩ | ⟨-, heq⟩
  · omega
  · rw [heq]
    by_cases hother : other = flow
    · subst hother
      refine .inr ⟨?_, .inl (by simp [audited])⟩
      rcases hreclaimed with hkept | ⟨-, hover⟩
      · rw [hkept] at hlate
        simp only [Option.all_some, decide_eq_true_eq] at hlate
        omega
      · omega
    · have hlookup : ((evaluator.reclaimed now).audited other now).denialAudits[flow]? =
          (evaluator.reclaimed now).denialAudits[flow]? := by
        simp [audited, ExtTreeMap.getElem?_insert, hother]
      rw [hlookup]
      rcases hreclaimed with hkept | ⟨hgone, hover⟩
      · exact .inl ⟨hkept, fun heq => absurd heq.symm hother⟩
      · exact .inr ⟨by omega, .inr hgone⟩
  · rw [heq]
    rcases hreclaimed with hkept | ⟨hgone, hover⟩
    · exact .inl ⟨hkept, fun _ => rfl⟩
    · exact .inr ⟨by omega, .inr hgone⟩

/-- An audit is recorded under its time. -/
theorem admit_emitted {evaluator : Evaluator} (hinterval : 0 < evaluator.denialInterval)
    {flow : FlowKey} {now : Nat} (hemit : (evaluator.admitDenialAudit flow now).1 = true) :
    (evaluator.admitDenialAudit flow now).2.denialAudits[flow]? = some now := by
  rcases evaluator.admitDenialAudit_cases flow now with ⟨hzero, -⟩ | ⟨-, -, -, heq⟩ | ⟨-, heq⟩
  · omega
  · rw [heq]
    simp [audited]
  · rw [heq] at hemit
    cases hemit

/-! ## Calls in a row

By induction on the calls, `Remembers` is kept until the interval is over. Two audits of one flow are an
interval apart, and the audits of a window are limited by the places of the throttle.
-/

/-- One evaluation. -/
structure Call where
  packet : Packet
  now : Nat

/-- Whether the decision of a call asks for an audit. -/
def emits (evaluator : Evaluator) (call : Call) : Bool :=
  (evaluator.evaluate call.packet call.now).1.emitDenialAudit

/-- The evaluator after a run of evaluations, oldest first. -/
def serve (evaluator : Evaluator) (calls : List Call) : Evaluator :=
  evaluator.run (calls.map fun call => .evaluate call.packet call.now)

/-- The calls of a run whose decisions ask for an audit. -/
def audits (evaluator : Evaluator) : List Call → List Call
  | [] => []
  | call :: calls =>
    (if evaluator.emits call then [call] else []) ++ audits (evaluator.serve [call]) calls

theorem serve_append (evaluator : Evaluator) (calls more : List Call) :
    evaluator.serve (calls ++ more) = (evaluator.serve calls).serve more := by
  simp [serve, run, exec_append]

theorem Consistent.serve {evaluator : Evaluator} (h : evaluator.Consistent) (calls : List Call) :
    (evaluator.serve calls).Consistent := h.run _

theorem serve_interval (evaluator : Evaluator) (calls : List Call) :
    (evaluator.serve calls).denialInterval = evaluator.denialInterval :=
  congrArg Settings.denialInterval (run_settings _ _)

/-- The throttle remembers that `flow` was audited at `since`, or the interval from there has passed
by `clock`. -/
def Remembers (evaluator : Evaluator) (flow : FlowKey) (since clock : Nat) : Prop :=
  (∃ last, evaluator.denialAudits[flow]? = some last ∧ since ≤ last) ∨
    since + evaluator.denialInterval ≤ clock

section Steps

variable {evaluator : Evaluator} (h : evaluator.Consistent) (hinterval : 0 < evaluator.denialInterval)

include h hinterval

/-- **One call** of a later time. -/
theorem Remembers.serve {flow : FlowKey} {since clock : Nat} {call : Call}
    (hremembers : evaluator.Remembers flow since clock) (hclock : clock ≤ call.now) :
    (evaluator.serve [call]).Remembers flow since call.now := by
  rw [Remembers, serve_interval]
  rcases hremembers with ⟨last, hlast, hsince⟩ | hover
  · change (∃ last, (evaluator.evaluate call.packet call.now).2.denialAudits[flow]? = some last ∧ _) ∨ _
    rcases evaluate_audits h call.packet call.now with ⟨-, hsame⟩ | ⟨before, hbefore, hsame, hset, -, hafter⟩
    · rw [hsame]
      exact .inl ⟨last, hlast, hsince⟩
    · rw [hafter]
      have hset : before.denialInterval = evaluator.denialInterval :=
        congrArg Settings.denialInterval hset
      rcases hbefore.admit_some (hset ▸ hinterval) call.packet.flow call.now
        ((congrArg (·[flow]?) hsame).trans hlast) with ⟨hkept, -⟩ | ⟨hover, -⟩
      · exact .inl ⟨last, hkept, hsince⟩
      · exact .inr (by omega)
  · exact .inr (by omega)

/-- A flow that is remembered is not audited before its interval is over. -/
theorem Remembers.le_of_emits {since clock : Nat} {call : Call}
    (hremembers : evaluator.Remembers call.packet.flow since clock) (hclock : clock ≤ call.now)
    (hemits : evaluator.emits call = true) : since + evaluator.denialInterval ≤ call.now := by
  rcases hremembers with ⟨last, hlast, hsince⟩ | hover
  · rcases evaluate_audits h call.packet call.now with
      ⟨hsilent, -⟩ | ⟨before, hbefore, hsame, hset, hemit, -⟩
    · rw [emits, hsilent] at hemits
      cases hemits
    · have hset : before.denialInterval = evaluator.denialInterval :=
        congrArg Settings.denialInterval hset
      rcases hbefore.admit_some (hset ▸ hinterval) call.packet.flow call.now
        ((congrArg (·[call.packet.flow]?) hsame).trans hlast) with ⟨-, hsilent⟩ | ⟨hover, -⟩
      · rw [emits, hemit, hsilent rfl] at hemits
        cases hemits
      · omega
  · omega

/-- An audit is remembered. -/
theorem remembers_of_emits {call : Call} (hemits : evaluator.emits call = true) :
    (evaluator.serve [call]).denialAudits[call.packet.flow]? = some call.now := by
  change (evaluator.evaluate call.packet call.now).2.denialAudits[call.packet.flow]? = _
  rcases evaluate_audits h call.packet call.now with ⟨hsilent, -⟩ | ⟨before, -, -, hset, hemit, hafter⟩
  · rw [emits, hsilent] at hemits
    cases hemits
  · have hset : before.denialInterval = evaluator.denialInterval :=
      congrArg Settings.denialInterval hset
    rw [hafter]
    exact admit_emitted (hset ▸ hinterval) (by rwa [emits, hemit] at hemits)

/-- **Calls in a row**, by induction on the calls. -/
theorem Remembers.serve_all {flow : FlowKey} {since clock next : Nat} {calls : List Call}
    (hremembers : evaluator.Remembers flow since clock) (hsorted : calls.Pairwise (·.now ≤ ·.now))
    (hclock : ∀ call ∈ calls, clock ≤ call.now) (hnext : ∀ call ∈ calls, call.now ≤ next)
    (hle : clock ≤ next) : (evaluator.serve calls).Remembers flow since next := by
  induction calls generalizing evaluator clock with
  | nil => exact hremembers.imp_right fun hover => hover.trans hle
  | cons call calls ih =>
      rw [List.pairwise_cons] at hsorted
      have hstep := hremembers.serve h hinterval (hclock call (by simp))
      have hrest := ih (h.serve [call]) (by rwa [serve_interval]) hstep hsorted.2 hsorted.1
        (fun later hlater => hnext later (by simp [hlater])) (hnext call (by simp))
      rwa [← serve_append] at hrest

/-- **Audits of one flow are an interval apart.** -/
theorem interval_le_of_emits {first second : Call} {between : List Call}
    (hsorted : (first :: between ++ [second]).Pairwise (·.now ≤ ·.now))
    (hfirst : evaluator.emits first = true)
    (hsecond : (evaluator.serve (first :: between)).emits second = true)
    (hflow : first.packet.flow = second.packet.flow) :
    first.now + evaluator.denialInterval ≤ second.now := by
  rw [List.cons_append, List.pairwise_cons, List.pairwise_append] at hsorted
  obtain ⟨hlater, hbetween, -, hlast⟩ := hsorted
  have hremembers : (evaluator.serve [first]).Remembers second.packet.flow first.now first.now :=
    .inl ⟨first.now, hflow ▸ remembers_of_emits h hinterval hfirst, le_rfl⟩
  have hinterval' : 0 < (evaluator.serve [first]).denialInterval := by rwa [serve_interval]
  have hall := hremembers.serve_all (h.serve [first]) hinterval' hbetween
    (fun call hcall => hlater call (by simp [hcall]))
    (fun call hcall => hlast call hcall second (by simp)) (hlater second (by simp))
  rw [← serve_append] at hall
  have hle := hall.le_of_emits (h.serve _) (by rwa [serve_interval]) le_rfl hsecond
  rwa [serve_interval] at hle

/-- **A window shorter than the interval**, by induction on its calls: every flow audited in it stays
in the throttle, so the audits find room for no more flows than the throttle has. -/
theorem length_audits_le {flows : List FlowKey} {window : List Call} (since : Nat)
    (hnodup : flows.Nodup)
    (hflows : ∀ flow ∈ flows, ∃ last, evaluator.denialAudits[flow]? = some last ∧ since ≤ last)
    (hwindow : ∀ call ∈ window, since ≤ call.now ∧ call.now < since + evaluator.denialInterval) :
    flows.length + (evaluator.audits window).length ≤ evaluator.maxStates := by
  induction window generalizing evaluator flows with
  | nil =>
      rw [audits, List.length_nil, Nat.add_zero]
      refine (length_le_size hnodup fun flow hflow => ?_).trans h.audits_le
      obtain ⟨last, hlast, -⟩ := hflows flow hflow
      rw [ExtTreeMap.mem_iff_isSome_getElem?, hlast]
      rfl
  | cons call calls ih =>
      obtain ⟨hcall, hcalls⟩ := List.forall_mem_cons.mp hwindow
      -- nothing that was audited in the window can be forgotten at this call
      have hkept : ∀ flow ∈ flows, ∃ last,
          (evaluator.serve [call]).denialAudits[flow]? = some last ∧ since ≤ last := by
        intro flow hflow
        obtain ⟨last, hlast, hsince⟩ := hflows flow hflow
        have hremembers : evaluator.Remembers flow since since := .inl ⟨last, hlast, hsince⟩
        rcases hremembers.serve h hinterval hcall.1 with hkept | hover
        · exact hkept
        · rw [serve_interval] at hover
          omega
      have hmax : (evaluator.serve [call]).maxStates = evaluator.maxStates :=
        congrArg Settings.maxStates (run_settings _ _)
      rw [audits, ← hmax]
      split
      · next hemits =>
        have hfresh : call.packet.flow ∉ flows := by
          intro hflow
          obtain ⟨last, hlast, hsince⟩ := hflows _ hflow
          have hremembers : evaluator.Remembers call.packet.flow since since :=
            .inl ⟨last, hlast, hsince⟩
          have hle := hremembers.le_of_emits h hinterval hcall.1 hemits
          omega
        have hrest := ih (h.serve [call]) (by rwa [serve_interval])
          (List.nodup_cons.mpr ⟨hfresh, hnodup⟩)
          (List.forall_mem_cons.mpr
            ⟨⟨call.now, remembers_of_emits h hinterval hemits, hcall.1⟩, hkept⟩)
          (by rwa [serve_interval])
        simp only [List.length_cons, List.singleton_append] at hrest ⊢
        omega
      · exact ih (h.serve [call]) (by rwa [serve_interval]) hnodup hkept (by rwa [serve_interval])

end Steps

/-! ## Independence of the throttle

Two evaluators that differ in their throttles decide alike, call by call.
-/

/-- The evaluator with another throttle. -/
def withThrottle (evaluator : Evaluator) (denialAudits : ExtTreeMap FlowKey Nat)
    (denialExpirations : Deadlines FlowKey) (denialInterval : Nat) : Evaluator :=
  { evaluator with denialAudits, denialExpirations, denialInterval }

/-- The two evaluators differ in their throttles at most. -/
def Agree (a b : Evaluator) : Prop :=
  ∃ denialAudits denialExpirations denialInterval,
    b = a.withThrottle denialAudits denialExpirations denialInterval

section Agree

variable {a b : Evaluator}

theorem Agree.symm (h : Agree a b) : Agree b a := by
  obtain ⟨_, _, _, rfl⟩ := h
  exact ⟨a.denialAudits, a.denialExpirations, a.denialInterval, rfl⟩

theorem Agree.trans {c : Evaluator} (hab : Agree a b) (hbc : Agree b c) : Agree a c := by
  obtain ⟨_, _, _, rfl⟩ := hab
  obtain ⟨audits, expirations, interval, rfl⟩ := hbc
  exact ⟨audits, expirations, interval, rfl⟩

theorem Agree.fields (h : Agree a b) : b.meshId = a.meshId ∧ b.policy = a.policy ∧
    b.states = a.states ∧ b.stateExpirations = a.stateExpirations ∧
    b.stateRecency = a.stateRecency ∧ b.maxStates = a.maxStates ∧
    b.expiryBudget = a.expiryBudget := by
  obtain ⟨_, _, _, rfl⟩ := h
  exact ⟨rfl, rfl, rfl, rfl, rfl, rfl, rfl⟩

theorem Agree.removeState (h : Agree a b) (key : FlowKey) :
    Agree (a.removeState key) (b.removeState key) := by
  obtain ⟨audits, expirations, interval, rfl⟩ := h
  refine ⟨audits, expirations, interval, ?_⟩
  unfold Evaluator.removeState Evaluator.withThrottle
  dsimp only
  cases a.states[key]? <;> rfl

theorem Agree.expireLoop (h : Agree a b) (now budget : Nat) :
    Agree (a.expireLoop now budget) (b.expireLoop now budget) := by
  induction budget generalizing a b with
  | zero => exact h
  | succ budget ih =>
      obtain ⟨-, -, -, hexpirations, -⟩ := h.fields
      unfold Evaluator.expireLoop
      rw [hexpirations]
      split
      · exact h
      · split
        · exact h
        · exact ih (h.removeState _)

theorem Agree.stateValid (h : Agree a b) (key : FlowKey) (now : Nat) (refresh : Bool) :
    (b.stateValid key now refresh).1 = (a.stateValid key now refresh).1 ∧
      Agree (a.stateValid key now refresh).2 (b.stateValid key now refresh).2 := by
  obtain ⟨-, -, hstates, -⟩ := h.fields
  unfold Evaluator.stateValid
  rw [hstates]
  cases a.states[key]? with
  | none => exact ⟨rfl, h⟩
  | some entry =>
      simp only
      split
      · exact ⟨rfl, h.removeState key⟩
      · split
        · obtain ⟨audits, expirations, interval, rfl⟩ := h
          exact ⟨rfl, audits, expirations, interval, rfl⟩
        · exact ⟨rfl, h⟩

theorem Agree.anyValid (h : Agree a b) (now : Nat) (keys : List (FlowKey × Bool)) :
    (b.anyValid now keys).1 = (a.anyValid now keys).1 ∧
      Agree (a.anyValid now keys).2 (b.anyValid now keys).2 := by
  induction keys generalizing a b with
  | nil => exact ⟨rfl, h⟩
  | cons entry keys ih =>
      obtain ⟨hsame, hagree⟩ := h.stateValid entry.1 now entry.2
      unfold Evaluator.anyValid
      generalize a.stateValid entry.1 now entry.2 = ra at hsame hagree
      generalize b.stateValid entry.1 now entry.2 = rb at hsame hagree
      obtain ⟨valid, a'⟩ := ra
      obtain ⟨valid', b'⟩ := rb
      cases hsame
      cases valid with
      | true => exact ⟨rfl, hagree⟩
      | false => exact ih hagree

theorem Agree.makeRoom (h : Agree a b) : Agree a.makeRoom b.makeRoom := by
  obtain ⟨-, -, hstates, -, hrecency, hmax, -⟩ := h.fields
  unfold Evaluator.makeRoom
  rw [hstates, hrecency, hmax]
  split
  · split
    · exact h.removeState _
    · exact h
  · exact h

theorem Agree.insertState (h : Agree a b) (flow : FlowKey) (now : Nat) :
    Agree (a.insertState flow now) (b.insertState flow now) := by
  obtain ⟨-, -, -, -, -, hmax, -⟩ := h.fields
  rw [insertState_eq, insertState_eq, hmax]
  split
  · exact h
  · obtain ⟨audits, expirations, interval, heq⟩ := h.makeRoom
    rw [heq]
    exact ⟨audits, expirations, interval, rfl⟩

theorem reclaimAudits_agree (evaluator : Evaluator) (now budget : Nat) :
    Agree evaluator (evaluator.reclaimAudits now budget) := by
  induction budget generalizing evaluator with
  | zero => exact ⟨_, _, _, rfl⟩
  | succ budget ih =>
      unfold Evaluator.reclaimAudits
      split
      · exact ⟨_, _, _, rfl⟩
      · split
        · exact ⟨_, _, _, rfl⟩
        · exact Agree.trans ⟨_, _, evaluator.denialInterval, rfl⟩ (ih _)

/-- A denial changes nothing but the throttle. -/
theorem denial_agree (evaluator : Evaluator) (flow : FlowKey) (ruleId : Option RuleId) (now : Nat) :
    Agree evaluator (evaluator.denial flow ruleId now).2 := by
  have hreclaimed : Agree evaluator (evaluator.reclaimed now) := reclaimAudits_agree _ _ _
  show Agree evaluator (evaluator.admitDenialAudit flow now).2
  rcases evaluator.admitDenialAudit_cases flow now with ⟨-, heq⟩ | ⟨-, -, -, heq⟩ | ⟨-, heq⟩
  · rw [heq]
    exact ⟨_, _, _, rfl⟩
  · rw [heq]
    exact hreclaimed.trans ⟨_, _, (evaluator.reclaimed now).denialInterval, rfl⟩
  · rwa [heq]

theorem Agree.denial (h : Agree a b) (flow : FlowKey) (ruleId : Option RuleId) (now : Nat) :
    Agree (a.denial flow ruleId now).2 (b.denial flow ruleId now).2 :=
  ((denial_agree a flow ruleId now).symm.trans h).trans (denial_agree b flow ruleId now)

/-- **One evaluation** under two throttles. -/
theorem Agree.evaluate (h : Agree a b) (packet : Packet) (now : Nat) :
    (b.evaluate packet now).1.action = (a.evaluate packet now).1.action ∧
      Agree (a.evaluate packet now).2 (b.evaluate packet now).2 := by
  obtain ⟨-, -, -, -, -, -, hbudget⟩ := h.fields
  have hswept : Agree (a.expireSome now) (b.expireSome now) := by
    rw [Evaluator.expireSome, Evaluator.expireSome, hbudget]
    exact h.expireLoop now _
  obtain ⟨hvalid, hchecked⟩ := hswept.anyValid now (stateKeys packet)
  unfold Evaluator.evaluate
  simp only [hswept.fields.1]
  split
  · exact ⟨rfl, hswept.denial _ _ _⟩
  generalize (a.expireSome now).anyValid now (stateKeys packet) = ra at hvalid hchecked
  generalize (b.expireSome now).anyValid now (stateKeys packet) = rb at hvalid hchecked
  obtain ⟨valid, a'⟩ := ra
  obtain ⟨valid', b'⟩ := rb
  cases hvalid
  cases valid with
  | true => exact ⟨rfl, hchecked⟩
  | false =>
      simp only [show b'.policy = a'.policy from hchecked.fields.2.1]
      split
      · exact ⟨rfl, hchecked.denial _ _ _⟩
      · split
        · exact ⟨rfl, hchecked.insertState _ _⟩
        · exact ⟨rfl, hchecked.denial _ _ _⟩

theorem Agree.serve (h : Agree a b) (calls : List Call) : Agree (a.serve calls) (b.serve calls) := by
  induction calls generalizing a b with
  | nil => exact h
  | cons call calls ih => exact ih (h.evaluate call.packet call.now).2

end Agree

/-- **Denial audits are limited per flow and in total**, in every run of evaluations with an interval,
and the throttle never decides about a packet. -/
theorem serve_audits (meshId : MeshId) (policy : Policy) (maxStates expiryBudget : Nat)
    (denialInterval : Nat) (hinterval : 0 < denialInterval) :
    let start := new meshId policy maxStates expiryBudget denialInterval
    (∀ before first between second,
      (before ++ first :: between ++ [second]).Pairwise (·.now ≤ ·.now) →
      (start.serve before).emits first = true →
      (start.serve (before ++ first :: between)).emits second = true →
      first.packet.flow = second.packet.flow → first.now + denialInterval ≤ second.now) ∧
    (∀ before window since, (before ++ window).Pairwise (·.now ≤ ·.now) →
      (∀ call ∈ window, since ≤ call.now ∧ call.now < since + denialInterval) →
      ((start.serve before).audits window).length ≤ maxStates) ∧
    ∀ denialAudits denialExpirations denialInterval' calls (call : Call),
      (((start.withThrottle denialAudits denialExpirations denialInterval').serve calls).evaluate
          call.packet call.now).1.action =
        ((start.serve calls).evaluate call.packet call.now).1.action := by
  intro start
  have hconsistent : ∀ calls, (start.serve calls).Consistent :=
    (Consistent.new meshId policy maxStates expiryBudget denialInterval).serve
  have hpos : ∀ calls, 0 < (start.serve calls).denialInterval := fun calls => by
    rw [serve_interval]
    exact hinterval
  refine ⟨?_, ?_, ?_⟩
  · intro before first between second hsorted hfirst hsecond hflow
    rw [List.append_assoc, List.pairwise_append] at hsorted
    rw [serve_append] at hsecond
    have hle := interval_le_of_emits (hconsistent before) (hpos before) hsorted.2.1 hfirst hsecond
      hflow
    rwa [serve_interval] at hle
  · intro before window since hsorted hwindow
    have hle := length_audits_le (hconsistent before) (hpos before) since List.nodup_nil (by simp)
      (by rw [serve_interval]; exact hwindow)
    rw [List.length_nil, Nat.zero_add] at hle
    exact hle.trans_eq (congrArg Settings.maxStates (run_settings _ _))
  · intro audits expirations interval calls call
    have hagree : Agree start (start.withThrottle audits expirations interval) := ⟨_, _, _, rfl⟩
    exact ((hagree.serve calls).evaluate call.packet call.now).1

/-! ## One flow, denied again and again -/

/-- The mesh, and for brevity the Peers at both ends. -/
def lonelyMesh : MeshId := ⟨0x00000000000040008000000000000001#128, Types.random_one⟩

/-- A UDP packet that a policy without rules denies. -/
def deniedAt (now : Nat) : Call where
  packet :=
    { meshId := lonelyMesh
      source := ⟨lonelyMesh, .v4 0x0a090002#32, ∅⟩
      destination := ⟨lonelyMesh, .v4 0x0a090003#32, ∅⟩
      flow := ⟨.v4 0x0a090002#32, .v4 0x0a090003#32, UDP, some 4000, some 53⟩
      initiating := true
      relatedFlow := none
      fragmentOf := none }
  now := now

/-- An evaluator with one place in its throttle and ten seconds between audits. -/
def strict : Evaluator := new lonelyMesh (.new 1 .deny []) 1 4 10

/-- Of three denials within ten seconds and one at their end, the first and the last are audited. -/
theorem serve_audits_deniedAt :
    strict.emits (deniedAt 0) = true ∧
      (strict.serve [deniedAt 0, deniedAt 3, deniedAt 7]).emits (deniedAt 10) = true ∧
      (deniedAt 0).now + 10 ≤ (deniedAt 10).now ∧
      (strict.audits [deniedAt 0, deniedAt 3, deniedAt 7]).length ≤ 1 := by
  have hfirst : (strict.serve []).emits (deniedAt 0) = true := by decide +kernel
  have hlast : (strict.serve ([] ++ deniedAt 0 :: [deniedAt 3, deniedAt 7])).emits (deniedAt 10) =
      true := by decide +kernel
  have hlimited := serve_audits lonelyMesh (.new 1 .deny []) 1 4 10 (by decide)
  exact ⟨hfirst, hlast,
    hlimited.1 [] (deniedAt 0) [deniedAt 3, deniedAt 7] (deniedAt 10) (by simp [deniedAt]) hfirst hlast
      rfl,
    hlimited.2.1 [] [deniedAt 0, deniedAt 3, deniedAt 7] 0 (by simp [deniedAt]) (by simp [deniedAt])⟩

end Evaluator

end Peerward.IdentityPolicy
