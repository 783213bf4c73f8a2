import Peerward.Dataplane.ReassemblySteps

/-!
# Bookkeeping of the reassembler

The deadline index describes the sets that are held, and the counters that guard the quotas are the
sums of the charges of those sets: nothing that was discarded or completed is still counted, and
nothing that is held is forgotten. Expiry therefore takes away exactly the sets that are due.
-/

namespace Peerward.Dataplane.FragmentReassembler

open Std Peerward.Lib Peerward.Net

/-- What a set counts for among those of one source. -/
def chargedTo (source : IpAddr) (set : FragmentSet) : Nat :=
  if set.source = source then set.retainedBytes else 0

/-- The index and the counters describe the sets. -/
structure WF (r : FragmentReassembler) : Prop where
  indexed : Indexed r.sets FragmentSet.expiresAt r.expirations
  source : ∀ {key : ReassemblyKey} {set : FragmentSet}, r.sets[key]? = some set →
    set.source = key.source
  retained : r.retainedBytes = total FragmentSet.retainedBytes r.sets
  bySource : ∀ source : IpAddr,
    r.sourceBytes[source]?.getD 0 = total (chargedTo source) r.sets

theorem WF.of_new {perSourceBytes globalBytes timeoutSeconds : Nat} {start : FragmentReassembler}
    (h : new perSourceBytes globalBytes timeoutSeconds = .ok start) : WF start := by
  unfold new at h
  split at h
  · cases h
  · cases h
    refine ⟨Indexed.empty, ?_, rfl, ?_⟩
    · intro key set hset
      simp at hset
    · intro source
      simp

theorem releaseUsage_bySource (r : FragmentReassembler) (set : FragmentSet) (source : IpAddr) :
    (r.releaseUsage set).sourceBytes[source]?.getD 0 =
      r.sourceBytes[source]?.getD 0 - chargedTo source set := by
  unfold releaseUsage chargedTo
  cases hbytes : r.sourceBytes[set.source]? with
  | none =>
      simp only
      split
      · next heq => rw [← heq, hbytes, Option.getD_none, Nat.zero_sub]
      · rw [Nat.sub_zero]
  | some bytes =>
      simp only
      split
      · next hempty =>
        simp only [ExtTreeMap.getElem?_erase, LawfulEqOrd.compare_eq_iff_eq]
        split
        · next heq => rw [← heq, hbytes, Option.getD_none, Option.getD_some, hempty]
        · rw [Nat.sub_zero]
      · simp only [ExtTreeMap.getElem?_insert, LawfulEqOrd.compare_eq_iff_eq]
        split
        · next heq => rw [← heq, hbytes, Option.getD_some, Option.getD_some]
        · rw [Nat.sub_zero]

theorem WF.removeSet {r : FragmentReassembler} (h : WF r) (key : ReassemblyKey) :
    WF (r.removeSet key) := by
  unfold FragmentReassembler.removeSet
  cases hset : r.sets[key]? with
  | none => exact h
  | some set =>
  refine ⟨h.indexed.erase hset, ?_, ?_, ?_⟩
  · intro k set' hk
    simp only [releaseUsage_sets, ExtTreeMap.getElem?_erase] at hk
    split at hk
    · cases hk
    · exact h.source hk
  · show r.retainedBytes - set.retainedBytes = total _ (r.sets.erase key)
    have herase := total_erase FragmentSet.retainedBytes hset
    rw [h.retained]
    omega
  · intro source
    have herase := total_erase (chargedTo source) hset
    rw [releaseUsage_bySource]
    simp only
    rw [h.bySource]
    show _ = total _ (r.sets.erase key)
    omega

theorem WF.openSet {r : FragmentReassembler} (h : WF r) (key : ReassemblyKey) (now : Nat) :
    WF (r.openSet key now).2 ∧
      (r.openSet key now).2.sets[key]? = some (r.openSet key now).1 ∧
      (r.openSet key now).1.source = key.source := by
  unfold FragmentReassembler.openSet
  cases hset : r.sets[key]? with
  | some set => exact ⟨h, hset, h.source hset⟩
  | none =>
  refine ⟨⟨h.indexed.insert_fresh _ hset, ?_, ?_, ?_⟩, ?_, rfl⟩
  · intro k set hk
    simp only [ExtTreeMap.getElem?_insert, LawfulEqOrd.compare_eq_iff_eq] at hk
    split at hk
    · next heq =>
      cases hk
      rw [← heq]
    · exact h.source hk
  · simp only
    rw [total_insert_fresh _ _ hset, h.retained, Nat.zero_add]
  · intro source
    simp only
    rw [total_insert_fresh _ _ hset, h.bySource]
    simp [chargedTo]
  · simp

/-- An accepted fragment is charged to its set and changes neither its source nor its deadline. -/
theorem accept_usage {set set' : FragmentSet} {fragment : Fragment} {offset stop : Nat}
    {decoded : DecodedFragment} {packet : Bytes} {amount : Nat}
    (h : accept set fragment offset stop decoded packet amount = .ok set') :
    set'.source = set.source ∧ set'.expiresAt = set.expiresAt ∧
      set'.retainedBytes = set.retainedBytes + amount := by
  unfold accept at h
  split at h
  · cases h
  split at h
  · cases h
  split at h
  · cases h
  split at h
  · cases h
  cases h
  exact ⟨rfl, rfl, rfl⟩

theorem WF.storeSet {r : FragmentReassembler} (h : WF r) {key : ReassemblyKey}
    {set set' : FragmentSet} {amount : Nat} (hset : r.sets[key]? = some set)
    (hsource : set'.source = set.source) (hdue : set'.expiresAt = set.expiresAt)
    (hretained : set'.retainedBytes = set.retainedBytes + amount) :
    WF (r.storeSet key set' amount) := by
  have hkey := h.source hset
  refine ⟨h.indexed.insert_same hset hdue.symm, ?_, ?_, ?_⟩
  · intro k set'' hk
    rw [storeSet_sets] at hk
    split at hk
    · next heq =>
      cases hk
      rw [← heq, hsource, hkey]
    · exact h.source hk
  · have herase := total_erase FragmentSet.retainedBytes hset
    show r.retainedBytes + amount = total _ (r.sets.insert key set')
    rw [total_insert, hretained, h.retained]
    omega
  · intro source
    have herase := total_erase (chargedTo source) hset
    have hbefore := h.bySource source
    show (r.sourceBytes.insert key.source _)[source]?.getD 0 = total _ (r.sets.insert key set')
    rw [total_insert]
    simp only [ExtTreeMap.getElem?_insert, LawfulEqOrd.compare_eq_iff_eq]
    unfold chargedTo at herase ⊢
    rw [hsource, hkey, hretained]
    rw [hkey] at herase
    split
    · next heq =>
      subst heq
      rw [if_pos rfl] at herase
      rw [Option.getD_some, hbefore]
      unfold chargedTo
      omega
    · next hne =>
      rw [if_neg hne] at herase
      rw [hbefore]
      unfold chargedTo
      omega

/-! ## Expiry -/

theorem WF.expireLoop {r : FragmentReassembler} (h : WF r) (now turns : Nat) :
    WF (r.expireLoop now turns) := by
  induction turns generalizing r with
  | zero => exact h
  | succ turns ih =>
      unfold FragmentReassembler.expireLoop
      split
      · exact h
      split
      · exact h
      · exact ih (h.removeSet _)

theorem WF.expire {r : FragmentReassembler} (h : WF r) (now : Nat) : WF (r.expire now) :=
  h.expireLoop now _

/-- A set that is not due outlives expiry. -/
theorem WF.expireLoop_keeps {r : FragmentReassembler} (h : WF r) {now : Nat} (turns : Nat)
    {key : ReassemblyKey} {set : FragmentSet} (hset : r.sets[key]? = some set)
    (hdue : now < set.expiresAt) : (r.expireLoop now turns).sets[key]? = some set := by
  induction turns generalizing r with
  | zero => exact hset
  | succ turns ih =>
      unfold FragmentReassembler.expireLoop
      split
      · exact hset
      next deadline k hfirst =>
      split
      · exact hset
      next hpassed =>
      apply ih (h.removeSet k)
      -- the set at the front of the index is due, so it is another one
      obtain ⟨other, hother, hdeadline⟩ := h.indexed.first? hfirst
      rw [removeSet_sets, if_neg]
      · exact hset
      · intro heq
        subst heq
        rw [hset] at hother
        cases hother
        omega

theorem WF.expire_keeps {r : FragmentReassembler} (h : WF r) {now : Nat} {key : ReassemblyKey}
    {set : FragmentSet} (hset : r.sets[key]? = some set) (hdue : now < set.expiresAt) :
    (r.expire now).sets[key]? = some set :=
  h.expireLoop_keeps _ hset hdue

/-! ## Runs -/

theorem WF.push {r : FragmentReassembler} (h : WF r) (packet : Bytes) (now : Nat) :
    WF (r.push packet now).2 := by
  have hexpired := h.expire now
  rcases @push_eq r packet now with ⟨result, hpush, -⟩ | ⟨parsed, fragment, -, -, -, hpush⟩
  · rw [hpush]
    exact hexpired
  rw [hpush]
  obtain ⟨hopen, hset, hsource⟩ := hexpired.openSet (.ofParsed parsed fragment) now
  have hstore : ∀ {decoded stop set amount},
      accept ((r.expire now).openSet (.ofParsed parsed fragment) now).1 fragment
        (fragment.offset * 8) stop decoded packet amount = .ok set →
      WF (((r.expire now).openSet (.ofParsed parsed fragment) now).2.storeSet
        (.ofParsed parsed fragment) set amount) := by
    intro decoded stop set amount haccept
    obtain ⟨hsame, hdue, hretained⟩ := accept_usage haccept
    exact hopen.storeSet hset hsame hdue hretained
  have hcases := pushed (r.expire now) packet now parsed fragment
  generalize (r.expire now).pushFragment packet now parsed fragment = result at hcases
  cases hcases with
  | refused => exact hexpired.removeSet _
  | discarded => exact hopen.removeSet _
  | spoiled _ haccept => exact ((hstore haccept).removeSet _).removeSet _
  | pending _ haccept _ => exact hstore haccept
  | completed _ haccept _ _ _ => exact (hstore haccept).removeSet _

/-- **The counters are exact in every reachable state.** -/
theorem WF.run {r : FragmentReassembler} (h : WF r) (ops : List Op) : WF (r.run ops) := by
  apply exec_invariant h
  intro s op hs
  cases op with
  | push packet now => exact hs.push packet now
  | expire now => exact hs.expire now

end Peerward.Dataplane.FragmentReassembler
