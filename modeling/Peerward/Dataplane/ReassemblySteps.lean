import Peerward.Dataplane.ParseSteps
import Peerward.Lib.Intervals

/-!
# What one submission does

`Pushed` lists everything `push` can do with a fragment: discard its set, store it, or complete the
set. Bookkeeping is one invariant, `WF`: the deadline index describes the sets, and the retained-byte
counters are the sums over them.
-/

namespace Peerward.Dataplane.FragmentReassembler

open Std Peerward.Lib Peerward.Net

/-! ## Sets under their keys -/

theorem releaseUsage_sets (r : FragmentReassembler) (set : FragmentSet) :
    (r.releaseUsage set).sets = r.sets := rfl

theorem removeSet_sets (r : FragmentReassembler) (key k : ReassemblyKey) :
    (r.removeSet key).sets[k]? = if key = k then none else r.sets[k]? := by
  unfold removeSet
  split
  · next hnone =>
    split
    · next heq => rw [← heq, hnone]
    · rfl
  · next set hset =>
    simp only [releaseUsage_sets, ExtTreeMap.getElem?_erase, LawfulEqOrd.compare_eq_iff_eq]

theorem openSet_snd_sets (r : FragmentReassembler) (key : ReassemblyKey) (now : Nat)
    {k : ReassemblyKey} (hk : k ≠ key) : (r.openSet key now).2.sets[k]? = r.sets[k]? := by
  unfold openSet
  split
  · rfl
  · simp only [ExtTreeMap.getElem?_insert, LawfulEqOrd.compare_eq_iff_eq]
    rw [if_neg (Ne.symm hk)]

theorem storeSet_sets (r : FragmentReassembler) (key : ReassemblyKey) (set : FragmentSet)
    (charge : Nat) (k : ReassemblyKey) :
    (r.storeSet key set charge).sets[k]? = if key = k then some set else r.sets[k]? := by
  simp only [storeSet, ExtTreeMap.getElem?_insert, LawfulEqOrd.compare_eq_iff_eq]

theorem expireLoop_sets (r : FragmentReassembler) (now turns : Nat) {key : ReassemblyKey}
    {set : FragmentSet} (h : (r.expireLoop now turns).sets[key]? = some set) :
    r.sets[key]? = some set := by
  induction turns generalizing r with
  | zero => exact h
  | succ turns ih =>
      unfold expireLoop at h
      split at h
      · exact h
      split at h
      · exact h
      · have hbefore := ih _ h
        rw [removeSet_sets] at hbefore
        split at hbefore
        · cases hbefore
        · exact hbefore

/-- Expiry only takes sets away. -/
theorem expire_sets {r : FragmentReassembler} {now : Nat} {key : ReassemblyKey} {set : FragmentSet}
    (h : (r.expire now).sets[key]? = some set) : r.sets[key]? = some set :=
  expireLoop_sets r now _ h

/-! ## One fragment

A push of a fragment ends in one of a few ways: rejected with its set, kept, or completing it. `Pushed`
says what each leaves behind.
-/

/-- The charge of a fragment: its payload is retained next to the packet. -/
def charge (decoded : DecodedFragment) (packet : Bytes) : Nat :=
  decoded.payload.length + packet.length

/-- Both quotas have room for the charge. -/
def Affords (r : FragmentReassembler) (source : IpAddr) (amount : Nat) : Prop :=
  r.sourceBytes[source]?.getD 0 + amount ≤ r.perSourceBytes ∧
    r.retainedBytes + amount ≤ r.globalBytes

/-- The outcome of submitting a fragment with key `key` to `r`. -/
inductive Pushed (r : FragmentReassembler) (packet : Bytes) (now : Nat) (key : ReassemblyKey)
    (fragment : Fragment) : Except ReassemblyError ReassemblyStatus × FragmentReassembler → Prop
  | refused {err : ReassemblyError} : Pushed r packet now key fragment (.error err, r.removeSet key)
  | discarded {err : ReassemblyError} :
      Pushed r packet now key fragment (.error err, (r.openSet key now).2.removeSet key)
  | spoiled {err : ReassemblyError} {decoded : DecodedFragment} {stop : Nat} {set : FragmentSet} :
      prepare packet fragment = .ok (decoded, stop) →
      accept (r.openSet key now).1 fragment (fragment.offset * 8) stop decoded packet
        (charge decoded packet) = .ok set →
      Pushed r packet now key fragment (.error err,
        (((r.openSet key now).2.storeSet key set (charge decoded packet)).removeSet key).removeSet
          key)
  | pending {decoded : DecodedFragment} {stop : Nat} {set : FragmentSet} :
      prepare packet fragment = .ok (decoded, stop) →
      accept (r.openSet key now).1 fragment (fragment.offset * 8) stop decoded packet
        (charge decoded packet) = .ok set →
      isComplete set = false →
      Pushed r packet now key fragment (.ok .pending,
        (r.openSet key now).2.storeSet key set (charge decoded packet))
  | completed {decoded : DecodedFragment} {stop : Nat} {set : FragmentSet}
      {datagram : ReassembledDatagram} {whole : ParsedPacket} :
      prepare packet fragment = .ok (decoded, stop) →
      accept (r.openSet key now).1 fragment (fragment.offset * 8) stop decoded packet
        (charge decoded packet) = .ok set →
      isComplete set = true →
      assemble set = .ok datagram →
      parsePacket datagram.packet = .ok whole →
      Pushed r packet now key fragment (.ok (.complete datagram),
        ((r.openSet key now).2.storeSet key set (charge decoded packet)).removeSet key)

theorem pushed (r : FragmentReassembler) (packet : Bytes) (now : Nat) (parsed : ParsedPacket)
    (fragment : Fragment) :
    Pushed r packet now (.ofParsed parsed fragment) fragment
      (r.pushFragment packet now parsed fragment) := by
  unfold pushFragment
  simp only
  cases hprepare : prepare packet fragment with
  | error err => exact .refused
  | ok prepared =>
  obtain ⟨decoded, stop⟩ := prepared
  simp only
  generalize hresult : r.insertFragment (.ofParsed parsed fragment) fragment (fragment.offset * 8) stop
    decoded packet (decoded.payload.length + packet.length) now = result
  unfold insertFragment at hresult
  simp only at hresult
  split at hresult
  · subst hresult
    exact .refused
  cases haccept : accept (r.openSet (.ofParsed parsed fragment) now).1 fragment (fragment.offset * 8)
      stop decoded packet (decoded.payload.length + packet.length) with
  | error err =>
      rw [haccept] at hresult
      subst hresult
      exact .discarded
  | ok set =>
  rw [haccept] at hresult
  simp only at hresult
  cases hcomplete : isComplete set with
  | false =>
      rw [hcomplete] at hresult
      subst hresult
      exact .pending hprepare haccept hcomplete
  | true =>
  simp only [hcomplete, Bool.not_true, Bool.false_eq_true, if_false] at hresult
  cases hassemble : assemble set with
  | error err =>
      rw [hassemble] at hresult
      subst hresult
      exact .spoiled hprepare haccept
  | ok datagram =>
  rw [hassemble] at hresult
  simp only at hresult
  cases hparse : parsePacket datagram.packet with
  | error err =>
      rw [hparse] at hresult
      subst hresult
      exact .spoiled hprepare haccept
  | ok whole =>
      rw [hparse] at hresult
      subst hresult
      exact .completed hprepare haccept hcomplete hassemble hparse

/-- A packet that is not part of a larger datagram leaves the sets alone. -/
theorem push_eq {r : FragmentReassembler} {packet : Bytes} {now : Nat} :
    (∃ result, r.push packet now = (result, r.expire now) ∧
        ∀ parsed fragment, parsePacket packet = .ok parsed → parsed.fragment = some fragment →
          fragment.offset = 0 ∧ fragment.more = false) ∨
      ∃ parsed fragment, parsePacket packet = .ok parsed ∧ parsed.fragment = some fragment ∧
        (fragment.offset ≠ 0 ∨ fragment.more = true) ∧
        r.push packet now = (r.expire now).pushFragment packet now parsed fragment := by
  unfold push
  generalize r.expire now = swept
  simp only
  cases hparse : parsePacket packet with
  | error err =>
      left
      refine ⟨_, rfl, ?_⟩
      intro parsed fragment hparsed
      cases hparsed
  | ok parsed =>
  simp only
  cases hfragment : parsed.fragment with
  | none =>
      left
      refine ⟨_, rfl, ?_⟩
      intro parsed' fragment hparsed hfragment'
      cases hparsed
      rw [hfragment] at hfragment'
      cases hfragment'
  | some fragment =>
  simp only
  split
  · next hwhole =>
    left
    refine ⟨_, rfl, ?_⟩
    intro parsed' fragment' hparsed hfragment'
    cases hparsed
    rw [hfragment] at hfragment'
    cases hfragment'
    simpa using hwhole
  · next hpart =>
    right
    refine ⟨parsed, fragment, rfl, hfragment, ?_, rfl⟩
    by_contra hnone
    push Not at hnone
    apply hpart
    simpa using hnone

/-! ## Sets whose intervals lie apart

Only the two neighbours of a new interval are looked at. That is enough because the stored intervals lie
apart, and an accepted one keeps them so.
-/

/-- Length of a stored interval. -/
def span (stored : StoredFragment) : Nat := stored.payload.length

/-- The intervals of a set are non-empty, lie apart, respect the final length, and are counted. -/
structure Tidy (set : FragmentSet) : Prop where
  apart : Apart span set.fragments
  pos : ∀ {o : Nat} {st : StoredFragment}, set.fragments[o]? = some st → 0 < span st
  within : ∀ {stop o : Nat} {st : StoredFragment}, set.finalLength = some stop →
    set.fragments[o]? = some st → o + span st ≤ stop
  total : set.payloadBytes = total span set.fragments

/-- The set after a fragment was accepted. -/
def accepted (set : FragmentSet) (fragment : Fragment) (offset stop : Nat)
    (decoded : DecodedFragment) (packet : Bytes) (amount : Nat) : FragmentSet :=
  { set with
    finalLength := if fragment.more then set.finalLength else some stop
    template := if offset = 0 then some decoded.template else set.template
    retainedBytes := set.retainedBytes + amount
    payloadBytes := set.payloadBytes + decoded.payload.length
    fragments := set.fragments.insert offset { payload := decoded.payload, original := packet } }

/-- What a set must be like for a fragment to be accepted. -/
structure Admits (set : FragmentSet) (fragment : Fragment) (offset stop : Nat) : Prop where
  clear : ∀ (o : Nat) (st : StoredFragment), set.fragments[o]? = some st → o + span st ≤ offset ∨ stop ≤ o
  ends : ∀ length, set.finalLength = some length → stop ≤ length
  final : fragment.more = false → (∀ length, set.finalLength = some length → length = stop) ∧
    ∀ (o : Nat) (st : StoredFragment), set.fragments[o]? = some st → o + span st ≤ stop
  template : offset = 0 → set.template = none

theorem overlapsNeighbor_eq_false {set : FragmentSet} (h : Tidy set) {offset stop : Nat}
    (hlt : offset < stop) : overlapsNeighbor set.fragments offset stop = false ↔
      ∀ (o : Nat) (st : StoredFragment), set.fragments[o]? = some st → o + span st ≤ offset ∨ stop ≤ o := by
  have hpos : ∀ e ∈ set.fragments.toList, 0 < span e.2 := by
    intro e he
    exact h.pos (ExtTreeMap.mem_toList_iff_getElem?_eq_some.mp he)
  have hclear := clear_iff h.apart.pairwise hpos hlt
  unfold overlapsNeighbor
  refine hclear.trans ⟨fun hall o st hst => ?_, fun hall e he => ?_⟩
  · exact hall (o, st) (ExtTreeMap.mem_toList_iff_getElem?_eq_some.mpr hst)
  · exact hall e.1 e.2 (ExtTreeMap.mem_toList_iff_getElem?_eq_some.mp he)

/-- The neighbour checks of `insert_fragment` say what they should about a tidy set. -/
theorem accept_eq_ok {set set' : FragmentSet} (h : Tidy set) {fragment : Fragment}
    {offset stop : Nat} (hlt : offset < stop) {decoded : DecodedFragment} {packet : Bytes}
    {amount : Nat} : accept set fragment offset stop decoded packet amount = .ok set' ↔
      Admits set fragment offset stop ∧
        accepted set fragment offset stop decoded packet amount = set' := by
  have hlast : (set.fragments.toList.getLast?.any fun entry =>
      entry.1 + entry.2.payload.length > stop) = false ↔
      ∀ (o : Nat) (st : StoredFragment), set.fragments[o]? = some st → o + span st ≤ stop := by
    refine (getLast_end h.apart.pairwise).trans ⟨fun hall o st hst => ?_, fun hall e he => ?_⟩
    · exact hall (o, st) (ExtTreeMap.mem_toList_iff_getElem?_eq_some.mpr hst)
    · exact hall e.1 e.2 (ExtTreeMap.mem_toList_iff_getElem?_eq_some.mp he)
  have hends : (set.finalLength.any (stop > ·)) = false ↔
      ∀ length, set.finalLength = some length → stop ≤ length := by
    cases set.finalLength <;> simp
  have hsame : (set.finalLength.any (· ≠ stop)) = false ↔
      ∀ length, set.finalLength = some length → length = stop := by
    cases set.finalLength <;> simp
  unfold accept
  constructor
  · intro hok
    split at hok
    · cases hok
    next hclear =>
    split at hok
    · cases hok
    next hend =>
    split at hok
    · cases hok
    next hfinal =>
    split at hok
    · cases hok
    next htemplate =>
    refine ⟨⟨?_, ?_, ?_, ?_⟩, Except.ok.inj hok⟩
    · exact (overlapsNeighbor_eq_false h hlt).mp (by simpa using hclear)
    · exact hends.mp (by simpa using hend)
    · intro hmore
      simp only [hmore, Bool.not_false, Bool.true_and, Bool.not_eq_true, Bool.or_eq_false_iff]
        at hfinal
      exact ⟨hsame.mp hfinal.1, hlast.mp hfinal.2⟩
    · intro hzero
      simpa [hzero] using htemplate
  · rintro ⟨⟨hclear, hend, hfinal, htemplate⟩, rfl⟩
    rw [(overlapsNeighbor_eq_false h hlt).mpr hclear, if_neg (by simp), hends.mpr hend,
      if_neg (by simp), if_neg, if_neg]
    · rfl
    · rintro ⟨hzero, hsome⟩
      rw [htemplate hzero] at hsome
      cases hsome
    · cases hmore : fragment.more with
      | true => simp
      | false =>
          obtain ⟨h₁, h₂⟩ := hfinal hmore
          rw [hsame.mpr h₁, hlast.mpr h₂]
          simp

theorem getElem?_accepted (set : FragmentSet) (fragment : Fragment) (offset stop : Nat)
    (decoded : DecodedFragment) (packet : Bytes) (amount o : Nat) :
    (accepted set fragment offset stop decoded packet amount).fragments[o]? =
      if offset = o then some { payload := decoded.payload, original := packet }
      else set.fragments[o]? := by
  simp only [accepted, ExtTreeMap.getElem?_insert, LawfulEqOrd.compare_eq_iff_eq]

/-- An accepted fragment keeps its set tidy. -/
theorem Tidy.accepted {set : FragmentSet} (h : Tidy set) {fragment : Fragment} {offset : Nat}
    {decoded : DecodedFragment} (hpayload : decoded.payload ≠ [])
    (hadmits : Admits set fragment offset (offset + decoded.payload.length)) (packet : Bytes)
    (amount : Nat) : Tidy (accepted set fragment offset (offset + decoded.payload.length) decoded
      packet amount) where
  apart := h.apart.insert hadmits.clear
  pos := by
    intro o st hst
    rw [getElem?_accepted] at hst
    split at hst
    · cases hst
      exact List.length_pos_of_ne_nil hpayload
    · exact h.pos hst
  within := by
    intro stop o st hstop hst
    rw [getElem?_accepted] at hst
    simp only [FragmentReassembler.accepted] at hstop
    split at hstop
    · split at hst
      · next heq =>
        cases hst
        rw [← heq]
        exact hadmits.ends stop hstop
      · exact h.within hstop hst
    · next hmore =>
      simp only [Bool.not_eq_true] at hmore
      cases hstop
      split at hst
      · next heq =>
        cases hst
        rw [← heq]
        exact le_rfl
      · exact (hadmits.final hmore).2 o st hst
  total := by
    have hfree : set.fragments[offset]? = none := by
      cases hst : set.fragments[offset]? with
      | none => rfl
      | some st =>
          have hpos := List.length_pos_of_ne_nil hpayload
          have hstpos := h.pos hst
          have := hadmits.clear offset st hst
          omega
    show set.payloadBytes + decoded.payload.length = _
    rw [FragmentReassembler.accepted, total_insert_fresh _ _ hfree, h.total, Nat.add_comm]
    rfl

/-- What `prepare` checks. -/
theorem prepare_eq_ok {packet : Bytes} {fragment : Fragment} {decoded : DecodedFragment}
    {stop : Nat} : prepare packet fragment = .ok (decoded, stop) ↔
      decodeFragment packet fragment = .ok decoded ∧
        stop = fragment.offset * 8 + decoded.payload.length ∧ stop ≤ 65535 ∧
        decoded.payload ≠ [] ∧ (fragment.more = true → decoded.payload.length % 8 = 0) := by
  unfold prepare
  rw [bind_eq_ok]
  constructor
  · rintro ⟨decoded', hdecode, hok⟩
    simp only at hok
    split at hok
    · cases hok
    next hstop =>
    split at hok
    · cases hok
    next hbad =>
    cases hok
    push Not at hbad
    exact ⟨hdecode, rfl, by omega, hbad.1, hbad.2⟩
  · rintro ⟨hdecode, rfl, hstop, hne, hmod⟩
    refine ⟨decoded, hdecode, ?_⟩
    rw [if_neg (by omega), if_neg (by push Not; exact ⟨hne, hmod⟩)]

theorem Tidy.fresh (source : IpAddr) (expiresAt : Nat) :
    Tidy { source := source, expiresAt := expiresAt } where
  apart := .empty
  pos := by
    intro o st hst
    simp at hst
  within := by
    intro stop o st hstop
    cases hstop
  total := rfl

theorem openSet_fst (r : FragmentReassembler) (key : ReassemblyKey) (now : Nat) :
    (∃ set, r.sets[key]? = some set ∧ r.openSet key now = (set, r)) ∨
      (r.sets[key]? = none ∧ (r.openSet key now).1 =
        { source := key.source, expiresAt := saturatingAdd now r.timeoutSeconds }) := by
  unfold openSet
  cases hset : r.sets[key]? with
  | none => exact .inr ⟨rfl, rfl⟩
  | some set => exact .inl ⟨set, rfl, rfl⟩

end Peerward.Dataplane.FragmentReassembler
