import Peerward.Dataplane.ReassemblyComplete

/-!
# Accounting of the reassembler

`Accounted` extends the bookkeeping `WF`: every set is tidy and charged with what its fragments
retain, no counter is kept at zero, and the quotas are respected. `Releases` lists the states in
which an operation takes a set away, so that releasing a charge can be shown never to saturate.
-/

namespace Peerward.Dataplane.FragmentReassembler

open Std Peerward.Lib Peerward.Net

/-- What a stored fragment is charged for: its payload next to the packet it came in. -/
def retention (stored : StoredFragment) : Nat := stored.payload.length + stored.original.length

/-- Everything that is counted is what is held, and within the quotas. -/
structure Accounted (r : FragmentReassembler) : Prop where
  wf : WF r
  tidy : ∀ {key : ReassemblyKey} {set : FragmentSet}, r.sets[key]? = some set → Tidy set
  charged : ∀ {key : ReassemblyKey} {set : FragmentSet}, r.sets[key]? = some set →
    set.retainedBytes = total retention set.fragments
  positive : ∀ source : IpAddr, r.sourceBytes[source]? ≠ some 0
  global_le : r.retainedBytes ≤ r.globalBytes
  source_le : ∀ source : IpAddr, r.sourceBytes[source]?.getD 0 ≤ r.perSourceBytes

/-! ## What the operations keep

A set is charged for the fragments that it holds. Storing adds the charge of one fragment to the set and to
both counters, and removing a set takes its charge off them.
-/

theorem le_total {K V : Type} [Ord K] [TransOrd K] [LawfulEqOrd K] (f : V → Nat)
    {m : ExtTreeMap K V} {k : K} {v : V} (h : m[k]? = some v) : f v ≤ total f m := by
  have := total_erase f h
  omega

/-- A held set is counted in full. -/
theorem WF.counted {r : FragmentReassembler} (h : WF r) {key : ReassemblyKey} {set : FragmentSet}
    (hset : r.sets[key]? = some set) :
    set.retainedBytes ≤ r.retainedBytes ∧
      set.retainedBytes ≤ r.sourceBytes[set.source]?.getD 0 := by
  rw [h.retained, h.bySource]
  refine ⟨le_total _ hset, ?_⟩
  have hle := le_total (chargedTo set.source) hset
  rwa [chargedTo, if_pos rfl] at hle

theorem releaseUsage_positive {r : FragmentReassembler}
    (h : ∀ source : IpAddr, r.sourceBytes[source]? ≠ some 0) (set : FragmentSet) (source : IpAddr) :
    (r.releaseUsage set).sourceBytes[source]? ≠ some 0 := by
  unfold releaseUsage
  cases hbytes : r.sourceBytes[set.source]? with
  | none => exact h source
  | some bytes =>
      simp only
      split
      · rw [ExtTreeMap.getElem?_erase]
        split
        · simp
        · exact h source
      · next hleft =>
        rw [ExtTreeMap.getElem?_insert]
        split
        · simpa using hleft
        · exact h source

namespace Accounted

variable {r : FragmentReassembler}

theorem of_new {perSourceBytes globalBytes timeoutSeconds : Nat} {start : FragmentReassembler}
    (h : new perSourceBytes globalBytes timeoutSeconds = .ok start) : Accounted start := by
  have hwf := WF.of_new h
  unfold new at h
  split at h
  · cases h
  · cases h
    exact ⟨hwf, by simp, by simp, by simp, by simp, by simp⟩

theorem removeSet (h : Accounted r) (key : ReassemblyKey) : Accounted (r.removeSet key) := by
  have hwf := h.wf.removeSet key
  have hsets := removeSet_sets r key
  unfold FragmentReassembler.removeSet at hwf hsets ⊢
  cases hset : r.sets[key]? with
  | none => exact h
  | some set =>
      rw [hset] at hwf hsets
      refine ⟨hwf, ?_, ?_, releaseUsage_positive h.positive set, ?_, fun source => ?_⟩
      · intro k set' hk
        rw [hsets] at hk
        split at hk
        · cases hk
        · exact h.tidy hk
      · intro k set' hk
        rw [hsets] at hk
        split at hk
        · cases hk
        · exact h.charged hk
      · exact (Nat.sub_le _ _).trans h.global_le
      · rw [releaseUsage_bySource]
        exact (Nat.sub_le _ _).trans (h.source_le source)

theorem expireLoop (h : Accounted r) (now turns : Nat) : Accounted (r.expireLoop now turns) := by
  induction turns generalizing r with
  | zero => exact h
  | succ turns ih =>
      unfold FragmentReassembler.expireLoop
      split
      · exact h
      split
      · exact h
      · exact ih (h.removeSet _)

theorem expire (h : Accounted r) (now : Nat) : Accounted (r.expire now) := h.expireLoop now _

theorem openSet (h : Accounted r) (key : ReassemblyKey) (now : Nat) :
    Accounted (r.openSet key now).2 := by
  have hwf := (h.wf.openSet key now).1
  unfold FragmentReassembler.openSet at hwf ⊢
  cases hset : r.sets[key]? with
  | some set => exact h
  | none =>
      rw [hset] at hwf
      refine ⟨hwf, ?_, ?_, h.positive, h.global_le, h.source_le⟩
      · intro k set hk
        rw [ExtTreeMap.getElem?_insert] at hk
        split at hk
        · cases hk
          exact .fresh _ _
        · exact h.tidy hk
      · intro k set hk
        rw [ExtTreeMap.getElem?_insert] at hk
        split at hk
        · cases hk
          rfl
        · exact h.charged hk

end Accounted

theorem openSet_counters (r : FragmentReassembler) (key : ReassemblyKey) (now : Nat) :
    (r.openSet key now).2.sourceBytes = r.sourceBytes ∧
      (r.openSet key now).2.retainedBytes = r.retainedBytes := by
  unfold openSet
  split <;> exact ⟨rfl, rfl⟩

/-- Nothing is stored where a fragment is admitted. -/
theorem Admits.free {set : FragmentSet} (htidy : Tidy set) {fragment : Fragment}
    {offset stop : Nat} (h : Admits set fragment offset stop) (hlt : offset < stop) :
    set.fragments[offset]? = none := by
  cases hst : set.fragments[offset]? with
  | none => rfl
  | some st =>
      have hpos := htidy.pos hst
      have hclear := h.clear offset st hst
      omega

/-- A set that accepts a fragment stays tidy and charged. -/
theorem accept_charged {set set' : FragmentSet} (htidy : Tidy set)
    (hcharged : set.retainedBytes = total retention set.fragments) {packet : Bytes}
    {fragment : Fragment} {decoded : DecodedFragment} {stop : Nat}
    (hprepare : prepare packet fragment = .ok (decoded, stop))
    (haccept : accept set fragment (fragment.offset * 8) stop decoded packet (charge decoded packet) =
      .ok set') :
    Tidy set' ∧ set'.retainedBytes = total retention set'.fragments := by
  obtain ⟨-, rfl, -, hne, -⟩ := prepare_eq_ok.mp hprepare
  have hpos := List.length_pos_of_ne_nil hne
  obtain ⟨hadmits, rfl⟩ := (accept_eq_ok htidy (by omega)).mp haccept
  refine ⟨htidy.accepted hne hadmits _ _, ?_⟩
  have hfree := hadmits.free htidy (by omega)
  show set.retainedBytes + charge decoded packet = total retention (set.fragments.insert _ _)
  rw [total_insert_fresh _ _ hfree, hcharged, Nat.add_comm]
  rfl

/-- Storing an affordable fragment keeps the accounts. -/
theorem Accounted.store {r : FragmentReassembler} (h : Accounted r) {packet : Bytes} {now : Nat}
    {key : ReassemblyKey} {fragment : Fragment} {decoded : DecodedFragment} {stop : Nat}
    {set : FragmentSet} (hprepare : prepare packet fragment = .ok (decoded, stop))
    (haffords : Affords r key.source (charge decoded packet))
    (haccept : accept (r.openSet key now).1 fragment (fragment.offset * 8) stop decoded packet
      (charge decoded packet) = .ok set) :
    Accounted ((r.openSet key now).2.storeSet key set (charge decoded packet)) := by
  obtain ⟨-, hset, -⟩ := h.wf.openSet key now
  have hopen := h.openSet key now
  obtain ⟨hsource, hdue, hretained⟩ := accept_usage haccept
  obtain ⟨hbytes, htotal⟩ := openSet_counters r key now
  obtain ⟨htidy, hcharged⟩ :=
    accept_charged (hopen.tidy hset) (hopen.charged hset) hprepare haccept
  have hlimits := limits_openSet r key now
  simp only [limits, Prod.mk.injEq] at hlimits
  have hpositive : 0 < charge decoded packet := by
    obtain ⟨-, -, -, hne, -⟩ := prepare_eq_ok.mp hprepare
    have := List.length_pos_of_ne_nil hne
    unfold charge
    omega
  refine ⟨hopen.wf.storeSet hset hsource hdue hretained, ?_, ?_, ?_, ?_, ?_⟩
  · intro k set' hk
    rw [storeSet_sets] at hk
    split at hk
    · cases hk
      exact htidy
    · exact hopen.tidy hk
  · intro k set' hk
    rw [storeSet_sets] at hk
    split at hk
    · cases hk
      exact hcharged
    · exact hopen.charged hk
  · intro source
    show (ExtTreeMap.insert _ _ _)[source]? ≠ some 0
    rw [ExtTreeMap.getElem?_insert]
    split
    · intro hzero
      have := Option.some.inj hzero
      omega
    · exact hopen.positive source
  · show (r.openSet key now).2.retainedBytes + charge decoded packet ≤
      (r.openSet key now).2.globalBytes
    rw [htotal, hlimits.2.1]
    exact haffords.2
  · intro source
    show (ExtTreeMap.insert _ _ _)[source]?.getD 0 ≤ (r.openSet key now).2.perSourceBytes
    rw [ExtTreeMap.getElem?_insert, hlimits.1, hbytes]
    split
    · exact haffords.1
    · exact h.source_le source

/-! ## Submissions -/

/-- What a submission keeps: it stores only what both quotas afford, and otherwise removes sets. -/
theorem pushFragment_keeps {P : FragmentReassembler → Prop} {r : FragmentReassembler}
    {packet : Bytes} {now : Nat} {parsed : ParsedPacket} {fragment : Fragment} (hr : P r)
    (hremove : ∀ {r'}, P r' → P (r'.removeSet (.ofParsed parsed fragment)))
    (hopen : P (r.openSet (.ofParsed parsed fragment) now).2)
    (hstore : ∀ {decoded stop set}, prepare packet fragment = .ok (decoded, stop) →
      Affords r (ReassemblyKey.ofParsed parsed fragment).source (charge decoded packet) →
      accept (r.openSet (.ofParsed parsed fragment) now).1 fragment (fragment.offset * 8) stop
        decoded packet (charge decoded packet) = .ok set →
      P ((r.openSet (.ofParsed parsed fragment) now).2.storeSet (.ofParsed parsed fragment) set
        (charge decoded packet))) :
    P (r.pushFragment packet now parsed fragment).2 := by
  unfold pushFragment
  simp only
  cases hprepare : prepare packet fragment with
  | error err => exact hremove hr
  | ok prepared =>
  obtain ⟨decoded, stop⟩ := prepared
  simp only
  generalize hresult : r.insertFragment (.ofParsed parsed fragment) fragment (fragment.offset * 8)
    stop decoded packet (decoded.payload.length + packet.length) now = result
  unfold insertFragment at hresult
  simp only at hresult
  split at hresult
  · subst hresult
    exact hremove hr
  next hquota =>
  have haffords : Affords r (ReassemblyKey.ofParsed parsed fragment).source
      (charge decoded packet) := by
    simp only [not_or, Nat.not_lt] at hquota
    exact hquota
  cases haccept : accept (r.openSet (.ofParsed parsed fragment) now).1 fragment (fragment.offset * 8)
      stop decoded packet (decoded.payload.length + packet.length) with
  | error err =>
      rw [haccept] at hresult
      subst hresult
      exact hremove hopen
  | ok set =>
  rw [haccept] at hresult
  simp only at hresult
  have hstored := hstore hprepare haffords haccept
  split at hresult
  · subst hresult
    exact hstored
  split at hresult
  · subst hresult
    exact hremove (hremove hstored)
  split at hresult
  · subst hresult
    exact hremove (hremove hstored)
  · subst hresult
    exact hremove hstored

namespace Accounted

variable {r : FragmentReassembler}

theorem push (h : Accounted r) (packet : Bytes) (now : Nat) : Accounted (r.push packet now).2 := by
  have hexpired := h.expire now
  rcases @push_eq r packet now with ⟨result, hpush, -⟩ | ⟨parsed, fragment, -, -, -, hpush⟩
  · rw [hpush]
    exact hexpired
  · rw [hpush]
    exact pushFragment_keeps hexpired (fun h => h.removeSet _) (hexpired.openSet _ now)
      (fun hprepare haffords haccept => hexpired.store hprepare haffords haccept)

theorem step (h : Accounted r) (op : Op) : Accounted (r.step op) := by
  cases op with
  | push packet now => exact h.push packet now
  | expire now => exact h.expire now

theorem run (h : Accounted r) (ops : List Op) : Accounted (r.run ops) :=
  exec_invariant h (fun _ op h => h.step op) ops

/-- A counter is kept for exactly the sources that hold something. -/
theorem sourceBytes_eq (h : Accounted r) (source : IpAddr) :
    r.sourceBytes[source]? = if total (chargedTo source) r.sets = 0 then none
      else some (total (chargedTo source) r.sets) := by
  have hsum := h.wf.bySource source
  have hpositive := h.positive source
  cases hbytes : r.sourceBytes[source]? with
  | none =>
      rw [hbytes] at hsum
      replace hsum : 0 = total (chargedTo source) r.sets := hsum
      rw [if_pos hsum.symm]
  | some bytes =>
      rw [hbytes] at hsum hpositive
      replace hsum : bytes = total (chargedTo source) r.sets := hsum
      rw [← hsum, if_neg fun hzero => hpositive (by rw [hzero])]

end Accounted

/-! ## Expiry

The loop takes sets from the front of the index while they are due. The index lists the sets by their
deadlines, so none that is due is left.
-/

/-- Nothing that is due outlives a loop with enough turns. -/
theorem WF.expireLoop_live {r : FragmentReassembler} (h : WF r) {now turns : Nat}
    (hturns : r.expirations.size ≤ turns) {key : ReassemblyKey} {set : FragmentSet}
    (hset : (r.expireLoop now turns).sets[key]? = some set) : now < set.expiresAt := by
  induction turns generalizing r with
  | zero =>
      have hindexed : (set.expiresAt, key) ∈ r.expirations := (h.indexed _ _).mpr ⟨set, hset, rfl⟩
      have hempty : r.expirations = ∅ := ExtTreeSet.eq_empty_iff_size_eq_zero.mpr (by omega)
      rw [hempty] at hindexed
      simp at hindexed
  | succ turns ih =>
      unfold FragmentReassembler.expireLoop at hset
      split at hset
      · next hnone =>
        exact absurd ((h.indexed _ _).mpr ⟨set, hset, rfl⟩) (Deadlines.first?_eq_none hnone _)
      next deadline k hfirst =>
      split at hset
      · next hlater =>
        have hle := Deadlines.first?_le hfirst ((h.indexed _ _).mpr ⟨set, hset, rfl⟩)
        simp only at hle
        omega
      · refine ih (h.removeSet k) ?_ hset
        obtain ⟨other, hother, rfl⟩ := h.indexed.first? hfirst
        have hmem : r.expirations.contains (other.expiresAt, k) = true :=
          ExtTreeSet.contains_iff_mem.mpr (Deadlines.first?_mem hfirst)
        have herased : (r.removeSet k).expirations = r.expirations.erase (other.expiresAt, k) := by
          unfold FragmentReassembler.removeSet
          rw [hother]
          rfl
        rw [herased, ExtTreeSet.size_erase, hmem]
        simp only [if_true]
        omega

/-- Expiry takes away exactly the sets that are due. -/
theorem WF.expire_sets_eq {r : FragmentReassembler} (h : WF r) (now : Nat) (key : ReassemblyKey) :
    (r.expire now).sets[key]? = (r.sets[key]?).filter fun set => now < set.expiresAt := by
  cases hset : r.sets[key]? with
  | none =>
      cases hafter : (r.expire now).sets[key]? with
      | none => rfl
      | some set =>
          rw [expire_sets hafter] at hset
          cases hset
  | some set =>
      by_cases hdue : now < set.expiresAt
      · rw [h.expire_keeps hset hdue]
        simp [Option.filter, hdue]
      · cases hafter : (r.expire now).sets[key]? with
        | none => simp [Option.filter, hdue]
        | some set' =>
            have hlive := h.expireLoop_live le_rfl hafter
            rw [expire_sets hafter] at hset
            cases hset
            exact absurd hlive hdue

/-! ## Deadlines

A set's deadline is fixed when it is opened. A set that is due is only kept by a clock at its end,
where the deadline saturates.
-/

theorem openSet_sets (r : FragmentReassembler) (key : ReassemblyKey) (now : Nat)
    (k : ReassemblyKey) :
    (r.openSet key now).2.sets[k]? =
      if key = k then some (r.openSet key now).1 else r.sets[k]? := by
  unfold openSet
  split
  · next set hset =>
    split
    · next heq => rw [← heq, hset]
    · rfl
  · simp only [ExtTreeMap.getElem?_insert, LawfulEqOrd.compare_eq_iff_eq]

/-- The set a submission opens has the deadline it had, or a new one. -/
theorem openSet_deadline (r : FragmentReassembler) (key : ReassemblyKey) (now : Nat) :
    (∃ set, r.sets[key]? = some set ∧ (r.openSet key now).1.expiresAt = set.expiresAt) ∨
      (r.sets[key]? = none ∧
        (r.openSet key now).1.expiresAt = saturatingAdd now r.timeoutSeconds) := by
  rcases openSet_fst r key now with ⟨set, hset, hopen⟩ | ⟨hnone, hopen⟩
  · exact .inl ⟨set, hset, by rw [hopen]⟩
  · exact .inr ⟨hnone, by rw [hopen]⟩

/-- What holds of the deadlines of all sets and of a newly opened one holds after a submission. -/
theorem pushFragment_deadlines {P : ReassemblyKey → Nat → Prop} {r : FragmentReassembler}
    {packet : Bytes} {now : Nat} {parsed : ParsedPacket} {fragment : Fragment}
    (hsets : ∀ key set, r.sets[key]? = some set → P key set.expiresAt)
    (hfresh : ∀ key, r.sets[key]? = none → P key (saturatingAdd now r.timeoutSeconds))
    {key : ReassemblyKey} {set : FragmentSet}
    (h : (r.pushFragment packet now parsed fragment).2.sets[key]? = some set) :
    P key set.expiresAt := by
  have hopened : P (.ofParsed parsed fragment)
      (r.openSet (.ofParsed parsed fragment) now).1.expiresAt := by
    rcases openSet_deadline r (.ofParsed parsed fragment) now with ⟨set, hset, hsame⟩ | ⟨hnone, hnew⟩
    · rw [hsame]
      exact hsets _ set hset
    · rw [hnew]
      exact hfresh _ hnone
  have hopen : ∀ k set, (r.openSet (.ofParsed parsed fragment) now).2.sets[k]? = some set →
      P k set.expiresAt := by
    intro k set hk
    rw [openSet_sets] at hk
    split at hk
    · next heq =>
      cases hk
      exact heq ▸ hopened
    · exact hsets k set hk
  refine pushFragment_keeps (P := fun r' : FragmentReassembler =>
    ∀ (k : ReassemblyKey) (set : FragmentSet), r'.sets[k]? = some set → P k set.expiresAt)
    hsets ?_ hopen ?_ key set h
  · intro r' hr' k set hk
    rw [removeSet_sets] at hk
    split at hk
    · cases hk
    · exact hr' k set hk
  · intro decoded stop set hprepare haffords haccept k set' hk
    rw [storeSet_sets] at hk
    split at hk
    · next heq =>
      cases hk
      rw [(accept_usage haccept).2.1]
      exact heq ▸ hopened
    · exact hopen k set' hk

/-- After a push nothing that is due remains, unless the clock is at its end. -/
theorem WF.push_live {r : FragmentReassembler} (h : WF r) (htimeout : 0 < r.timeoutSeconds)
    {packet : Bytes} {now : Nat} (hnow : now < U64_MAX) {key : ReassemblyKey} {set : FragmentSet}
    (hset : (r.push packet now).2.sets[key]? = some set) : now < set.expiresAt := by
  have hexpired : ∀ (key : ReassemblyKey) (set : FragmentSet),
      (r.expire now).sets[key]? = some set → now < set.expiresAt :=
    fun _ _ hset => h.expireLoop_live le_rfl hset
  have hsame := limits_expire r now
  simp only [limits, Prod.mk.injEq] at hsame
  have hfresh : now < saturatingAdd now (r.expire now).timeoutSeconds := by
    rw [hsame.2.2]
    unfold saturatingAdd
    omega
  rcases @push_eq r packet now with ⟨result, hpush, -⟩ | ⟨parsed, fragment, -, -, -, hpush⟩
  · rw [hpush] at hset
    exact hexpired key set hset
  · rw [hpush] at hset
    exact pushFragment_deadlines (P := fun _ due => now < due) hexpired (fun _ _ => hfresh) hset

/-- A set that is not due keeps its deadline as long as it is held. -/
theorem WF.step_deadline {r : FragmentReassembler} (h : WF r) {op : Op} {key : ReassemblyKey}
    {set set' : FragmentSet} (hset : r.sets[key]? = some set) (hdue : op.time < set.expiresAt)
    (hafter : (r.step op).sets[key]? = some set') : set'.expiresAt = set.expiresAt := by
  have hkept := h.expire_keeps hset hdue
  cases op with
  | expire now =>
      rw [show (r.step (.expire now)).sets[key]? = some set from hkept] at hafter
      cases hafter
      rfl
  | push packet now =>
      replace hafter : (r.push packet now).2.sets[key]? = some set' := hafter
      replace hkept : (r.expire now).sets[key]? = some set := hkept
      rcases @push_eq r packet now with ⟨result, hpush, -⟩ | ⟨parsed, fragment, -, -, -, hpush⟩
      · rw [hpush] at hafter
        rw [show (r.expire now).sets[key]? = some set' from hafter] at hkept
        cases hkept
        rfl
      · rw [hpush] at hafter
        refine pushFragment_deadlines
          (P := fun k due => ∀ set : FragmentSet, (r.expire now).sets[k]? = some set →
            due = set.expiresAt)
          ?_ ?_ hafter set hkept
        · intro k held hk other hother
          rw [hk] at hother
          cases hother
          rfl
        · intro k hnone other hother
          rw [hnone] at hother
          cases hother

/-- A failed submission leaves no set under its key, and all others as expiry left them. -/
theorem pushFragment_error {r : FragmentReassembler} {packet : Bytes} {now : Nat}
    {parsed : ParsedPacket} {fragment : Fragment} {err : ReassemblyError}
    (h : (r.pushFragment packet now parsed fragment).1 = .error err) (k : ReassemblyKey) :
    (r.pushFragment packet now parsed fragment).2.sets[k]? =
      if .ofParsed parsed fragment = k then none else r.sets[k]? := by
  have hcases := pushed r packet now parsed fragment
  generalize r.pushFragment packet now parsed fragment = result at hcases h ⊢
  cases hcases with
  | refused => exact removeSet_sets r _ k
  | discarded =>
      rw [removeSet_sets, openSet_sets]
      split <;> rfl
  | spoiled =>
      rw [removeSet_sets, removeSet_sets, storeSet_sets, openSet_sets]
      split <;> rfl
  | pending => cases h
  | completed => cases h

/-! ## Releasing -/

/-- `op`, run in `r`, takes away the set under a key in the state `r'`. -/
inductive Releases (r : FragmentReassembler) : Op → FragmentReassembler → ReassemblyKey → Prop
  | expired {op : Op} {turns deadline : Nat} {key : ReassemblyKey} :
      (r.expireLoop op.time turns).expirations.first? = some (deadline, key) →
      Releases r op (r.expireLoop op.time turns) key
  | refused {packet : Bytes} {now : Nat} {key : ReassemblyKey} :
      Releases r (.push packet now) (r.expire now) key
  | discarded {packet : Bytes} {now : Nat} {key : ReassemblyKey} :
      Releases r (.push packet now) ((r.expire now).openSet key now).2 key
  | stored {packet : Bytes} {now stop : Nat} {key : ReassemblyKey} {fragment : Fragment}
      {decoded : DecodedFragment} {set : FragmentSet} :
      prepare packet fragment = .ok (decoded, stop) →
      Affords (r.expire now) key.source (charge decoded packet) →
      accept ((r.expire now).openSet key now).1 fragment (fragment.offset * 8) stop decoded packet
        (charge decoded packet) = .ok set →
      Releases r (.push packet now)
        (((r.expire now).openSet key now).2.storeSet key set (charge decoded packet)) key

theorem Accounted.releases {r r' : FragmentReassembler} (h : Accounted r) {op : Op}
    {key : ReassemblyKey} (hreleases : Releases r op r' key) : Accounted r' := by
  cases hreleases with
  | expired => exact h.expireLoop _ _
  | refused => exact h.expire _
  | discarded => exact (h.expire _).openSet _ _
  | stored hprepare haffords haccept => exact (h.expire _).store hprepare haffords haccept

/-! ## Runs

The result is a conjunction of what the lemmas above say of one step, kept by induction on the run.
-/

theorem new_timeout {perSourceBytes globalBytes timeoutSeconds : Nat} {start : FragmentReassembler}
    (h : new perSourceBytes globalBytes timeoutSeconds = .ok start) :
    start.limits = (perSourceBytes, globalBytes, timeoutSeconds) ∧ 0 < timeoutSeconds := by
  unfold new at h
  split at h
  · cases h
  · next hvalid =>
    cases h
    exact ⟨rfl, by omega⟩

/-- **The accounts are exact in every run.** The deadline index lists the sets; every counter is
the sum over what is held, and no release saturates; fragments of a set lie apart and inside its
final length; the quotas hold; nothing that is due outlives an operation, except a set that a push
at the end of the clock opens, and no deadline moves; and a failed push discards its own set. -/
theorem run_accounts (perSourceBytes globalBytes timeoutSeconds : Nat)
    (start : FragmentReassembler) (hstart : new perSourceBytes globalBytes timeoutSeconds = .ok start)
    (ops : List Op) :
    let r := run start ops
    (∀ (due : Nat) (key : ReassemblyKey), (due, key) ∈ r.expirations ↔
      ∃ set, r.sets[key]? = some set ∧ set.expiresAt = due) ∧
    (∀ (key : ReassemblyKey) (set : FragmentSet), r.sets[key]? = some set →
      set.retainedBytes = total retention set.fragments ∧
      set.payloadBytes = total span set.fragments ∧
      (∀ (o o' : Nat) (st st' : StoredFragment), set.fragments[o]? = some st →
        set.fragments[o']? = some st' → o < o' → o + st.payload.length ≤ o') ∧
      ∀ (stop o : Nat) (st : StoredFragment), set.finalLength = some stop →
        set.fragments[o]? = some st → o + st.payload.length ≤ stop) ∧
    r.retainedBytes = total FragmentSet.retainedBytes r.sets ∧
    (∀ source : IpAddr, r.sourceBytes[source]? = if total (chargedTo source) r.sets = 0 then none
      else some (total (chargedTo source) r.sets)) ∧
    r.retainedBytes ≤ globalBytes ∧
    (∀ source : IpAddr, r.sourceBytes[source]?.getD 0 ≤ perSourceBytes) ∧
    (∀ (op : Op) (r' : FragmentReassembler) (key : ReassemblyKey) (set : FragmentSet),
      Releases r op r' key → r'.sets[key]? = some set →
      set.retainedBytes ≤ r'.retainedBytes ∧
        set.retainedBytes ≤ r'.sourceBytes[set.source]?.getD 0) ∧
    (∀ (now : Nat) (key : ReassemblyKey) (set : FragmentSet),
      (r.step (.expire now)).sets[key]? = some set → now < set.expiresAt) ∧
    (∀ (packet : Bytes) (now : Nat), now < U64_MAX → ∀ (key : ReassemblyKey) (set : FragmentSet),
      (r.step (.push packet now)).sets[key]? = some set → now < set.expiresAt) ∧
    (∀ (op : Op) (key : ReassemblyKey) (set set' : FragmentSet), r.sets[key]? = some set →
      op.time < set.expiresAt → (r.step op).sets[key]? = some set' →
      set'.expiresAt = set.expiresAt) ∧
    ∀ (packet : Bytes) (now : Nat) (parsed : ParsedPacket) (fragment : Fragment)
      (err : ReassemblyError), parsePacket packet = .ok parsed → parsed.fragment = some fragment →
      (fragment.offset ≠ 0 ∨ fragment.more = true) → (r.push packet now).1 = .error err →
      ∀ key : ReassemblyKey, (r.step (.push packet now)).sets[key]? =
        if .ofParsed parsed fragment = key then none
        else (r.sets[key]?).filter fun set => now < set.expiresAt := by
  intro r
  have h : Accounted r := (Accounted.of_new hstart).run ops
  obtain ⟨hlimits, htimeout⟩ := new_timeout hstart
  have hsame : r.limits = (perSourceBytes, globalBytes, timeoutSeconds) :=
    (limits_run start ops).trans hlimits
  simp only [limits, Prod.mk.injEq] at hsame
  refine ⟨h.wf.indexed, ?_, h.wf.retained, h.sourceBytes_eq, hsame.2.1 ▸ h.global_le,
    hsame.1 ▸ h.source_le, ?_, ?_, ?_, ?_, ?_⟩
  · intro key set hset
    have htidy := h.tidy hset
    exact ⟨h.charged hset, htidy.total, fun o o' st st' ho ho' hlt => htidy.apart ho ho' hlt,
      fun stop o st hstop hst => htidy.within hstop hst⟩
  · intro op r' key set hreleases hset
    exact (h.releases hreleases).wf.counted hset
  · intro now key set hset
    exact h.wf.expireLoop_live le_rfl hset
  · intro packet now hnow key set hset
    exact h.wf.push_live (hsame.2.2 ▸ htimeout) hnow hset
  · intro op key set set' hset hdue hafter
    exact h.wf.step_deadline hset hdue hafter
  · intro packet now parsed fragment err hparse hfragment hpart herr key
    have hpush : r.push packet now = (r.expire now).pushFragment packet now parsed fragment := by
      rcases @push_eq r packet now with ⟨result, -, hwhole⟩ |
        ⟨parsed', fragment', hparse', hfragment', -, hpush⟩
      · obtain ⟨hzero, hmore⟩ := hwhole parsed fragment hparse hfragment
        rcases hpart with hoffset | hmore'
        · exact absurd hzero hoffset
        · rw [hmore] at hmore'
          cases hmore'
      · cases hparse.symm.trans hparse'
        cases hfragment.symm.trans hfragment'
        exact hpush
    show (r.push packet now).2.sets[key]? = _
    rw [hpush] at herr ⊢
    rw [pushFragment_error herr key, h.wf.expire_sets_eq now key]

/-- At the last second the clock can show, a push leaves a set that is due at once. -/
theorem push_at_clock_end :
    ∃ start : FragmentReassembler, new 4096 8192 30 = .ok start ∧
      ((run start [.push udpHead U64_MAX]).sets.toList.map fun entry =>
        decide (entry.2.expiresAt ≤ U64_MAX)) = [true] :=
  ⟨_, rfl, by decide +kernel⟩

/-- A head is held, and its copy, which overlaps it, discards both. -/
theorem run_accounts_overlap :
    ∃ (start : FragmentReassembler) (parsed : ParsedPacket) (fragment : Fragment),
      new 4096 8192 30 = .ok start ∧ parsePacket udpHead = .ok parsed ∧
      parsed.fragment = some fragment ∧ (run start [.push udpHead 1]).retainedBytes ≤ 8192 ∧
      ((run start [.push udpHead 1]).step (.push udpHead 2)).sets[
        ReassemblyKey.ofParsed parsed fragment]? = none := by
  let start : FragmentReassembler :=
    { perSourceBytes := 4096, globalBytes := 8192, timeoutSeconds := 30 }
  let fragment : Fragment := { identification := 7, offset := 0, more := true }
  have hread : (parsePacket udpHead).toOption.bind ParsedPacket.fragment = some fragment := by
    decide +kernel
  obtain ⟨parsed, hparse, hfragment⟩ : ∃ parsed, parsePacket udpHead = .ok parsed ∧
      parsed.fragment = some fragment := by
    cases hparse : parsePacket udpHead with
    | error err =>
        rw [hparse] at hread
        cases hread
    | ok parsed =>
        rw [hparse] at hread
        exact ⟨parsed, rfl, hread⟩
  have herr : ((run start [.push udpHead 1]).push udpHead 2).1 = .error .overlap := by
    decide +kernel
  obtain ⟨-, -, -, -, hglobal, -, -, -, -, -, hfailed⟩ :=
    run_accounts 4096 8192 30 start rfl [.push udpHead 1]
  have hgone := hfailed udpHead 2 parsed fragment _ hparse hfragment (.inr rfl) herr
    (.ofParsed parsed fragment)
  rw [if_pos rfl] at hgone
  exact ⟨start, parsed, fragment, rfl, hparse, hfragment, hglobal, hgone⟩

end Peerward.Dataplane.FragmentReassembler
