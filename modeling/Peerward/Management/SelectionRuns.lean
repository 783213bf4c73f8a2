import Peerward.Lib.Run
import Peerward.Management.Selection

/-!
# Gateway selection over whole runs

A run registers paths, observes them, drops them and selects. A preferred provider takes a resource
back from another one that still works once it has been stable for thirty seconds. Stability is
counted from the first success after a failure, so a provider whose latest probe failed still counts
as stable since its last recovery: the takeover is then too early.
-/

namespace Peerward.Management.GatewaySelector

open Std Peerward.Lib Peerward.Types

/-! ## Runs -/

/-- The arguments of one `select_aliases`. -/
structure Query where
  resource : Uuid
  aliases : List Uuid
  bindings : List GatewayBinding
  advertisements : List RouteAdvertisement
  wall : Nat
  now : Nat

inductive Op where
  | register (binding : Uuid) (now : Nat)
  | observe (binding : Uuid) (success : Bool) (now : Nat)
  | retain (keep : Uuid → Bool)
  | select (query : Query)

/-- The instant an operation is given. -/
def Op.now? : Op → Option Nat
  | register _ now | observe _ _ now => some now
  | retain _ => none
  | select query => some query.now

def answer (s : GatewaySelector) (query : Query) : Option PeerId × GatewaySelector :=
  s.selectAliases query.resource query.aliases query.bindings query.advertisements query.wall query.now

def step (s : GatewaySelector) : Op → GatewaySelector
  | .register binding now => s.register binding now
  | .observe binding success now => s.observe binding success now
  | .retain keep => s.retain keep
  | .select query => (s.answer query).2

/-- Operations are given nondecreasing instants. -/
def Timely (ops : List Op) : Prop := (ops.filterMap Op.now?).Pairwise (· ≤ ·)

instance (ops : List Op) : Decidable (Timely ops) := inferInstanceAs (Decidable (List.Pairwise _ _))

/-! ## What selection promises

A selection is sound when it picks a candidate. It is not early when a resource leaves its provider only
for a preferred one whose path was good for thirty seconds.
-/

/-- An approved, valid binding of one of the aliases that is eligible and advertised. -/
structure Candidate (s : GatewaySelector) (query : Query) (binding : GatewayBinding) : Prop where
  mem : binding ∈ query.bindings
  aliased : binding.resourceId ∈ query.aliases
  approved : binding.approved = true
  valid : binding.validate = .ok ()
  eligible : s.eligible binding.id query.now = true
  advertised : ∃ ad ∈ query.advertisements, ad.supports binding query.wall = true

/-- The selected Peer is a candidate's. -/
def Sound (s : GatewaySelector) (query : Query) : Prop :=
  ∀ peer, (s.answer query).1 = some peer →
    ∃ binding, s.Candidate query binding ∧ binding.peerId = peer

/-- Every observation of the path in the thirty seconds before `now` was a success. -/
def SteadyAt (before : List Op) (binding : Uuid) (now : Nat) : Prop :=
  ∀ success time, .observe binding success time ∈ before → now < time + 30 * SECOND → success = true

/-- A resource is taken from a candidate only by a preferred one that was steady. -/
def NotEarly (before : List Op) (s : GatewaySelector) (query : Query) : Prop :=
  ∀ old, s.selected[query.resource]? = some old.id → s.Candidate query old →
    ∀ new, (s.answer query).2.selected[query.resource]? = some new → new ≠ old.id →
      ∃ binding, s.Candidate query binding ∧ binding.id = new ∧
        (s.answer query).1 = some binding.peerId ∧ preference binding old = .lt ∧
        SteadyAt before new query.now

/-- The preferred candidate would replace a current one, and its latest probe failed. -/
def ReplacesFailing (s : GatewaySelector) (query : Query) : Prop :=
  ∃ old preferred, s.selected[query.resource]? = some old.id ∧ s.Candidate query old ∧
    s.Candidate query preferred ∧ preferred.id ≠ old.id ∧
    (∀ other, s.Candidate query other → (preference preferred other).isLE = true) ∧
    ∃ found, s.observations[preferred.id]? = some found ∧ found.failures ≠ 0 ∧
      30 * SECOND ≤ query.now - found.stableSince

/-! ## One selection

The candidates are sorted and the current provider is kept as long as it is one of them, unless the
preferred one has been stable for long enough.
-/

variable {s : GatewaySelector} {query : Query} {binding preferred : GatewayBinding}

instance : TransCmp preference := inferInstanceAs (TransCmp (compareLex _ _))

/-- The sorted candidates. -/
def candidates (s : GatewaySelector) (query : Query) : List GatewayBinding :=
  sortBy preference (query.bindings.filter fun binding =>
    query.aliases.contains binding.resourceId && binding.approved && binding.validate.isOk
      && s.eligible binding.id query.now && query.advertisements.any (·.supports binding query.wall))

theorem mem_candidates : binding ∈ s.candidates query ↔ s.Candidate query binding := by
  have hvalid : binding.validate.isOk = true ↔ binding.validate = .ok () := by
    cases binding.validate <;> simp [Except.isOk, Except.toBool]
  rw [candidates, (sortBy_perm _ _).mem_iff, List.mem_filter]
  simp only [Bool.and_eq_true, List.contains_iff_mem, hvalid, List.any_eq_true]
  exact ⟨fun ⟨hmem, ⟨⟨⟨halias, happroved⟩, hvalid⟩, heligible⟩, had⟩ =>
      ⟨hmem, halias, happroved, hvalid, heligible, had⟩,
    fun h => ⟨h.mem, ⟨⟨⟨h.aliased, h.approved⟩, h.valid⟩, h.eligible⟩, h.advertised⟩⟩

theorem preferred_le (h : (s.candidates query).head? = some preferred)
    (hcandidate : s.Candidate query binding) : (preference preferred binding).isLE = true := by
  have hsorted := sortBy_pairwise preference (query.bindings.filter fun binding =>
    query.aliases.contains binding.resourceId && binding.approved && binding.validate.isOk
      && s.eligible binding.id query.now && query.advertisements.any (·.supports binding query.wall))
  have hmem := mem_candidates.mpr hcandidate
  unfold candidates at h hmem
  generalize sortBy preference _ = sorted at h hmem hsorted
  cases sorted with
  | nil => cases hmem
  | cons first rest =>
      cases h
      rcases List.mem_cons.mp hmem with rfl | hrest
      · exact ReflCmp.isLE_rfl
      · exact (List.pairwise_cons.mp hsorted).1 binding hrest

/-- The current provider, as far as it is still a candidate. -/
def current (s : GatewaySelector) (query : Query) : Option GatewayBinding :=
  s.selected[query.resource]?.bind fun id => (s.candidates query).find? (·.id = id)

def chosen (s : GatewaySelector) (query : Query) (preferred : GatewayBinding) : GatewayBinding :=
  match s.current query with
  | some old => if s.keeps preferred old query.now then old else preferred
  | none => preferred

theorem answer_of_nil (h : s.candidates query = []) : s.answer query = (none, s) := by
  unfold candidates at h
  simp only [answer, selectAliases, h]

theorem answer_of_head (h : (s.candidates query).head? = some preferred) :
    s.answer query = (some (s.chosen query preferred).peerId, { s with
      selected := s.selected.insert query.resource (s.chosen query preferred).id }) := by
  unfold chosen current
  unfold candidates at h ⊢
  unfold answer selectAliases
  dsimp only
  generalize sortBy preference _ = sorted at h ⊢
  cases sorted with
  | nil => cases h
  | cons first rest =>
      cases h
      rfl

theorem current_candidate {old : GatewayBinding} (h : s.current query = some old) :
    s.Candidate query old ∧ s.selected[query.resource]? = some old.id := by
  obtain ⟨id, hid, hfind⟩ := Option.bind_eq_some_iff.mp h
  refine ⟨mem_candidates.mp (List.mem_of_find?_eq_some hfind), ?_⟩
  have hsame : old.id = id := by simpa using List.find?_some hfind
  rw [hid, hsame]

/-- The current provider is found when it is still a candidate, up to its id. -/
theorem exists_current {old : GatewayBinding} (hselected : s.selected[query.resource]? = some old.id)
    (hold : s.Candidate query old) : ∃ found, s.current query = some found ∧ found.id = old.id := by
  rw [current, hselected, Option.bind_some]
  have hsome : ((s.candidates query).find? (·.id = old.id)).isSome := by
    rw [List.find?_isSome]
    exact ⟨old, mem_candidates.mpr hold, by simp⟩
  obtain ⟨found, hfound⟩ := Option.isSome_iff_exists.mp hsome
  exact ⟨found, hfound, by simpa using List.find?_some hfound⟩

theorem chosen_candidate (h : (s.candidates query).head? = some preferred) :
    s.Candidate query (s.chosen query preferred) := by
  have hpreferred := mem_candidates.mp (List.mem_of_mem_head? h)
  unfold chosen
  split
  · next old hold =>
      split
      · exact (current_candidate hold).1
      · exact hpreferred
  · exact hpreferred

theorem exists_preferred (h : s.Candidate query binding) :
    ∃ preferred, (s.candidates query).head? = some preferred := by
  have hmem := mem_candidates.mpr h
  generalize s.candidates query = sorted at hmem
  cases sorted with
  | nil => cases hmem
  | cons first rest => exact ⟨first, rfl⟩

theorem sound (s : GatewaySelector) (query : Query) : s.Sound query := by
  intro peer hpeer
  cases hhead : (s.candidates query).head? with
  | none =>
      rw [answer_of_nil (List.head?_eq_none_iff.mp hhead)] at hpeer
      cases hpeer
  | some preferred =>
      rw [answer_of_head hhead] at hpeer
      exact ⟨_, chosen_candidate hhead, Option.some.inj hpeer⟩

/-- A candidate has been observed, or at least registered. -/
theorem observed_of_candidate (h : s.Candidate query binding) :
    ∃ found, s.observations[binding.id]? = some found := by
  have heligible := h.eligible
  cases hfound : s.observations[binding.id]? with
  | none => simp [eligible, health, hfound] at heligible
  | some found => exact ⟨found, rfl⟩

/-- A candidate that has been stable for thirty seconds was observed in the last fifteen. -/
theorem checked_of_stable (h : s.Candidate query binding) {found : Observation}
    (hfound : s.observations[binding.id]? = some found)
    (hstable : 30 * SECOND ≤ query.now - found.stableSince) :
    query.now - found.checked ≤ 15 * SECOND := by
  have heligible := h.eligible
  by_contra hstale
  have hsecond : 0 < SECOND := by decide
  have hunstable : ¬ query.now - found.stableSince < 15 * SECOND := by omega
  have hunknown : s.health binding.id query.now = .unknown := by
    simp only [health, hfound, Option.filter_some, hstale, decide_false]
    rfl
  simp [eligible, hunknown, hfound, hunstable] at heligible

/-- The chosen provider is a different one from a current candidate exactly when the preferred one
is, and has been stable for long enough. -/
theorem chosen_id_ne {old : GatewayBinding} (hselected : s.selected[query.resource]? = some old.id)
    (hold : s.Candidate query old) {found : Observation} (hfound : s.observations[preferred.id]? = some found) :
    (s.chosen query preferred).id ≠ old.id ↔
      preferred.id ≠ old.id ∧ 30 * SECOND ≤ query.now - found.stableSince := by
  obtain ⟨current, hcurrent, hid⟩ := exists_current hselected hold
  unfold chosen
  simp only [hcurrent, keeps, hfound, Option.all_some, Bool.and_eq_true, decide_eq_true_eq]
  split
  · next hkeeps => exact ⟨fun hne => absurd hid hne, fun ⟨_, hstable⟩ => by omega⟩
  · next hswitch =>
      rw [hid] at hswitch
      constructor
      · intro hne
        refine ⟨hne, ?_⟩
        by_contra hearly
        exact hswitch ⟨fun heq => hne heq.symm, by omega⟩
      · exact fun hswitched => hswitched.1

/-! ## The history of an observation

An entry records since when its path was good and when it was last probed. `Recorded` says what this means
for the probes of the run, up to the last time the entry was dropped.
-/

/-- What the entry of a path says about the probes it has had, since before it was last dropped. -/
structure Recorded (before : List Op) (binding : Uuid) (found : Observation) : Prop where
  /-- Without a failure since the last success, every failure is older than the stable period. -/
  settled : found.failures = 0 →
    ∀ time, .observe binding false time ∈ before → time ≤ found.stableSince
  streak : found.successes ≠ 0 → found.failures = 0
  failed : found.failures ≠ 0 → .observe binding false found.checked ∈ before

def History (before : List Op) (s : GatewaySelector) : Prop :=
  ∀ binding found, s.observations[binding]? = some found → Recorded before binding found

variable {before : List Op} {op : Op} {found : Observation} {id : Uuid}

theorem Recorded.concat (h : Recorded before id found)
    (hop : ∀ time, op ≠ .observe id false time) : Recorded (before ++ [op]) id found where
  settled hzero time hmem := by
    rw [List.mem_append, List.mem_singleton] at hmem
    exact h.settled hzero time (hmem.resolve_right fun heq => hop time heq.symm)
  streak := h.streak
  failed hne := List.mem_append_left _ (h.failed hne)

/-- Every instant of a timely history is at most the one of a new operation. -/
theorem le_of_timely {now time : Nat} {earlier : Op} (htimely : Timely (before ++ [op]))
    (hnow : op.now? = some now) (hmem : earlier ∈ before) (htime : earlier.now? = some time) :
    time ≤ now := by
  rw [Timely, List.filterMap_append, List.pairwise_append] at htimely
  exact htimely.2.2 time (List.mem_filterMap.mpr ⟨earlier, hmem, htime⟩) now (by simp [hnow])

/-- An entry made now. -/
theorem Recorded.fresh {now : Nat} (htimely : Timely (before ++ [op])) (hnow : op.now? = some now) :
    Recorded before id { stableSince := now, checked := now } where
  settled _ _ hmem := le_of_timely htimely hnow hmem rfl
  streak h := absurd rfl h
  failed h := absurd rfl h

theorem bump_ne_zero (count : Nat) : bump count ≠ 0 := by
  unfold bump
  omega

theorem Recorded.record {success : Bool} {now : Nat}
    (htimely : Timely (before ++ [.observe id success now])) (h : Recorded before id found) :
    Recorded (before ++ [.observe id success now]) id (record found success now) := by
  cases success with
  | true =>
      refine ⟨fun _ time hmem => ?_, fun _ => rfl, fun hne => absurd rfl hne⟩
      rw [List.mem_append, List.mem_singleton] at hmem
      replace hmem := hmem.resolve_right (by simp)
      show time ≤ if found.successes = 0 then now else found.stableSince
      split
      · exact le_of_timely htimely rfl hmem rfl
      · next hstreak => exact h.settled (h.streak hstreak) time hmem
  | false =>
      refine ⟨fun hzero => absurd hzero (bump_ne_zero _), fun hne => absurd rfl hne, fun _ => ?_⟩
      exact List.mem_append_right _ (List.mem_singleton_self _)

theorem History.step (htimely : Timely (before ++ [op])) (h : History before s) :
    History (before ++ [op]) (s.step op) := by
  intro id found hfound
  cases op with
  | register binding now =>
      simp only [GatewaySelector.step, register] at hfound
      refine Recorded.concat ?_ (by simp)
      split at hfound
      · exact h id found hfound
      · rw [ExtTreeMap.getElem?_insert] at hfound
        split at hfound
        · rw [← Option.some.inj hfound]
          exact .fresh htimely rfl
        · exact h id found hfound
  | observe binding success now =>
      simp only [GatewaySelector.step, observe, ExtTreeMap.getElem?_insert] at hfound
      split at hfound
      · next heq =>
          obtain rfl := LawfulEqOrd.eq_of_compare heq
          rw [← Option.some.inj hfound]
          refine Recorded.record htimely ?_
          cases hold : s.observations[binding]? with
          | none => exact .fresh htimely rfl
          | some old => exact h binding old hold
      · next hne =>
          refine (h id found hfound).concat fun time heq => hne ?_
          cases heq
          simp
  | retain keep =>
      refine (h id found ?_).concat (by simp)
      simp only [GatewaySelector.step, retain, ExtTreeMap.getElem?_filter] at hfound
      exact (Option.pfilter_eq_some_iff.mp hfound).1
  | select query =>
      refine (h id found ?_).concat (by simp)
      cases hhead : (s.candidates query).head? with
      | none =>
          simpa only [GatewaySelector.step, answer_of_nil (List.head?_eq_none_iff.mp hhead)]
            using hfound
      | some preferred => simpa only [GatewaySelector.step, answer_of_head hhead] using hfound

theorem Timely.left {after : List Op} (h : Timely (before ++ after)) : Timely before := by
  rw [Timely, List.filterMap_append, List.pairwise_append] at h
  exact h.1

theorem history (ops : List Op) (htimely : Timely ops) : History ops (exec step {} ops) := by
  induction ops using List.reverseRecOn with
  | nil =>
      intro id found hfound
      simp at hfound
  | append_singleton ops op ih =>
      rw [exec_concat]
      exact (ih htimely.left).step htimely

/-! ## Takeovers

A provider that replaces another was stable, by its entry. What is left to ask is whether its latest probe
was a success, and the code does not ask it.
-/

theorem id_eq_of_preference {first second : GatewayBinding} (h : preference first second = .eq) :
    first.id = second.id := by
  simp only [preference, compareLex_eq_eq, compareOn, LawfulEqOrd.compare_eq_iff_eq] at h
  exact h.2.2

/-- A resource that leaves a current candidate goes to the preferred one. -/
theorem chosen_eq_preferred {old : GatewayBinding}
    (hselected : s.selected[query.resource]? = some old.id) (hold : s.Candidate query old)
    (hne : (s.chosen query preferred).id ≠ old.id) : s.chosen query preferred = preferred := by
  obtain ⟨current, hcurrent, hid⟩ := exists_current hselected hold
  unfold chosen at hne ⊢
  simp only [hcurrent] at hne ⊢
  split
  · next hkeeps =>
      rw [if_pos hkeeps] at hne
      exact absurd hid hne
  · rfl

theorem notEarly_of_settled (hhistory : History before s) (h : ¬ s.ReplacesFailing query) :
    NotEarly before s query := by
  intro old hselected hold new hnew hne
  obtain ⟨preferred, hhead⟩ := exists_preferred hold
  have hpreferred := mem_candidates.mp (List.mem_of_mem_head? hhead)
  obtain ⟨found, hfound⟩ := observed_of_candidate hpreferred
  rw [answer_of_head hhead] at hnew ⊢
  simp only [ExtTreeMap.getElem?_insert_self, Option.some.injEq] at hnew
  subst hnew
  obtain ⟨hother, hstable⟩ := (chosen_id_ne hselected hold hfound).mp hne
  rw [chosen_eq_preferred hselected hold hne]
  refine ⟨preferred, hpreferred, rfl, rfl, ?_, ?_⟩
  · cases hcmp : preference preferred old with
    | lt => rfl
    | eq => exact absurd (id_eq_of_preference hcmp) hother
    | gt =>
        have hle := preferred_le hhead hold
        rw [hcmp] at hle
        cases hle
  · intro success time hmem hrecent
    have hzero : found.failures = 0 := by
      by_contra hfailures
      exact h ⟨old, preferred, hselected, hold, hpreferred, hother,
        fun other hcandidate => preferred_le hhead hcandidate, found, hfound, hfailures, hstable⟩
    cases success with
    | true => rfl
    | false =>
        have hsettled := (hhistory _ _ hfound).settled hzero time hmem
        have hsecond : 0 < SECOND := by decide
        omega

/-- A takeover by a provider whose latest probe failed is early: that probe is at most fifteen
seconds old. -/
theorem early_of_replacesFailing (hhistory : History before s) (h : s.ReplacesFailing query) :
    ¬ NotEarly before s query := by
  intro hnotEarly
  obtain ⟨old, least, hselected, hold, hleast, hother, hle, found, hfound, hfailures, hstable⟩ := h
  obtain ⟨preferred, hhead⟩ := exists_preferred hold
  have hpreferred := mem_candidates.mp (List.mem_of_mem_head? hhead)
  have hid : preferred.id = least.id :=
    id_eq_of_preference (OrientedCmp.isLE_antisymm (preferred_le hhead hleast) (hle _ hpreferred))
  rw [← hid] at hfound hother
  have hne := (chosen_id_ne hselected hold hfound).mpr ⟨hother, hstable⟩
  have hnew : (s.answer query).2.selected[query.resource]? = some preferred.id := by
    rw [answer_of_head hhead, chosen_eq_preferred hselected hold hne]
    exact ExtTreeMap.getElem?_insert_self
  obtain ⟨binding, -, -, -, -, hsteady⟩ := hnotEarly old hselected hold _ hnew hother
  have hchecked := checked_of_stable hpreferred hfound hstable
  have hsecond : 0 < SECOND := by decide
  have hfailed := hsteady false found.checked ((hhistory _ _ hfound).failed hfailures) (by omega)
  cases hfailed

/-- In a run with nondecreasing instants every selection is sound, and none takes a resource back
early exactly when none replaces a candidate by a preferred one whose latest probe failed. -/
theorem selections_iff (ops : List Op) (htimely : Timely ops) :
    Along (fun before op => ∀ query, op = .select query →
      (exec step {} before).Sound query ∧ NotEarly before (exec step {} before) query) ops ↔
    Along (fun before op => ∀ query, op = .select query →
      ¬ (exec step {} before).ReplacesFailing query) ops := by
  have hhistory : ∀ before op after, ops = before ++ op :: after →
      History before (exec step {} before) := by
    rintro before op after rfl
    exact history before htimely.left
  constructor
  · intro h before op after hops query hquery hreplaces
    exact early_of_replacesFailing (hhistory before op after hops) hreplaces
      (h before op after hops query hquery).2
  · intro h before op after hops query hquery
    exact ⟨sound _ query, notEarly_of_settled (hhistory before op after hops)
      (h before op after hops query hquery)⟩

/-! ## A takeover after a failed probe -/

/-- Gateways of resource 7: the second one is preferred. -/
def slowGateway : GatewayBinding where
  id := 0x40008000000000000001#128
  resourceId := 7
  peerId := ⟨0x40008000000000000011#128, by decide⟩
  version := 1
  approved := true
  priority := 200
  forwarding := .snat
  returnRouteConfirmed := false
  approvalSource := .manual

def fastGateway : GatewayBinding :=
  { slowGateway with
    id := 0x40008000000000000002#128
    peerId := ⟨0x40008000000000000012#128, by decide⟩
    priority := 100 }

def advertised (binding : GatewayBinding) : RouteAdvertisement where
  bindingVersion := 1
  bindingId := binding.id
  peerId := binding.peerId
  sequence := 1
  published := true
  validUntil := 1000
  forwardingReady := true

def queryAt (now : Nat) : Query where
  resource := 7
  aliases := [7]
  bindings := [slowGateway, fastGateway]
  advertisements := [advertised slowGateway, advertised fastGateway]
  wall := 10
  now := now

/-- The preferred gateway comes up a second late and fails a probe thirty seconds after that. -/
def failedProbe : List Op :=
  [.observe slowGateway.id true 0, .select (queryAt 0), .observe fastGateway.id true SECOND,
    .observe slowGateway.id true (31 * SECOND), .observe fastGateway.id false (31 * SECOND)]

theorem failedProbe_selections_iff :
    Along (fun before op => ∀ query, op = .select query →
      (exec step {} before).Sound query ∧ NotEarly before (exec step {} before) query) failedProbe ↔
    Along (fun before op => ∀ query, op = .select query →
      ¬ (exec step {} before).ReplacesFailing query) failedProbe :=
  selections_iff failedProbe (by decide)

theorem failedProbe_taken_back_early :
    Timely (failedProbe ++ [.select (queryAt (31 * SECOND))]) ∧
      ¬ Along (fun before op => ∀ query, op = .select query →
        (exec step {} before).Sound query ∧ NotEarly before (exec step {} before) query)
        (failedProbe ++ [.select (queryAt (31 * SECOND))]) := by
  refine ⟨by decide, fun h => ?_⟩
  have hnotEarly := (h failedProbe _ [] rfl (queryAt (31 * SECOND)) rfl).2
  have hslow : (exec step {} failedProbe).Candidate (queryAt (31 * SECOND)) slowGateway :=
    mem_candidates.mp (by decide +kernel)
  obtain ⟨_, -, -, -, -, hsteady⟩ := hnotEarly slowGateway (by decide +kernel) hslow fastGateway.id
    (by decide +kernel) (by decide)
  have hfailed := hsteady false (31 * SECOND) (by simp [failedProbe]) (by decide)
  cases hfailed

end Peerward.Management.GatewaySelector
