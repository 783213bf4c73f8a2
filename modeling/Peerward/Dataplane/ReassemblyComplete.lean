import Peerward.Dataplane.Fragmentation
import Peerward.Dataplane.ReassemblySound
import Peerward.Dataplane.ReassemblyUsage

/-!
# Completeness of reassembly

The fragments of one datagram may arrive in any order, with anything else in between: as long as the
set is not due and the quotas have room, each of them is accepted, and the last one to arrive
completes the datagram.

`Collected` says what a set looks like after some of the fragments have arrived. Each arrival extends
it (`Collected.accept`), operations under other keys leave it alone (`Held.frame`), and once nothing is
missing the set assembles to the datagram (`Collected.assemble`).
-/

namespace Peerward.Dataplane

open Std Peerward.Lib Peerward.Net

/-! ## Consecutive fragments

The pieces of a payload, in the order of their offsets. In whatever order they arrive, none overlaps another
and all lie inside the payload, so each is accepted.
-/

/-- Bytes of payload in a list of fragments. -/
def payloadSize (parts : List FragmentPacket) : Nat := (parts.map (·.payload.length)).sum

/-- The fragments of the bytes from `offset` on, in order, the last one without the flag. -/
def Consecutive (key : ReassemblyKey) : (offset : Nat) → List FragmentPacket → Prop
  | _, [] => True
  | offset, part :: rest =>
    part.Carries key offset (!rest.isEmpty) part.payload ∧ part.payload ≠ [] ∧
      (rest ≠ [] → part.payload.length % 8 = 0) ∧
      Consecutive key (offset + part.payload.length) rest

namespace Consecutive

variable {key : ReassemblyKey} {offset : Nat} {parts : List FragmentPacket}

theorem bounds (h : Consecutive key offset parts) {part : FragmentPacket} (hpart : part ∈ parts) :
    part.key = key ∧ part.payload ≠ [] ∧ (part.fragment.more = true → part.payload.length % 8 = 0) ∧
      offset ≤ part.start ∧ part.start + part.payload.length ≤ offset + payloadSize parts := by
  induction parts generalizing offset with
  | nil => cases hpart
  | cons first rest ih =>
      obtain ⟨hcarries, hne, haligned, hrest⟩ := h
      have hsize : payloadSize (first :: rest) = first.payload.length + payloadSize rest := rfl
      rcases List.mem_cons.mp hpart with rfl | hpart
      · refine ⟨hcarries.key, hne, ?_, hcarries.start.ge, ?_⟩
        · intro hmore
          apply haligned
          rw [hcarries.more] at hmore
          simpa using hmore
        · rw [hcarries.start, hsize]
          omega
      · obtain ⟨hkey, hne', haligned', hlow, hhigh⟩ := ih hrest hpart
        exact ⟨hkey, hne', haligned', by omega, by omega⟩

/-- The fragment without the flag ends where the payload ends. -/
theorem end_of_last (h : Consecutive key offset parts) {part : FragmentPacket} (hpart : part ∈ parts)
    (hmore : part.fragment.more = false) :
    part.start + part.payload.length = offset + payloadSize parts := by
  induction parts generalizing offset with
  | nil => cases hpart
  | cons first rest ih =>
      obtain ⟨hcarries, -, -, hrest⟩ := h
      have hsize : payloadSize (first :: rest) = first.payload.length + payloadSize rest := rfl
      rcases List.mem_cons.mp hpart with rfl | hpart
      · rw [hcarries.more] at hmore
        have hnil : rest = [] := by simpa using hmore
        rw [hcarries.start, hsize, hnil]
        rfl
      · have := ih hrest hpart
        omega

theorem exists_last (h : Consecutive key offset parts) (hne : parts ≠ []) :
    ∃ part ∈ parts, part.fragment.more = false := by
  induction parts generalizing offset with
  | nil => exact absurd rfl hne
  | cons first rest ih =>
      obtain ⟨hcarries, -, -, hrest⟩ := h
      cases rest with
      | nil => exact ⟨first, by simp, hcarries.more⟩
      | cons second rest =>
          obtain ⟨part, hpart, hmore⟩ := ih hrest (by simp)
          exact ⟨part, List.mem_cons_of_mem _ hpart, hmore⟩

theorem pairwise (h : Consecutive key offset parts) :
    parts.Pairwise fun a b => a.start + a.payload.length ≤ b.start := by
  induction parts generalizing offset with
  | nil => exact .nil
  | cons first rest ih =>
      obtain ⟨hcarries, -, -, hrest⟩ := h
      refine .cons ?_ (ih hrest)
      intro part hpart
      rw [hcarries.start]
      exact (hrest.bounds hpart).2.2.2.1

end Consecutive

namespace FragmentReassembler

/-- What is stored of a fragment. -/
def storedOf (part : FragmentPacket) : StoredFragment := ⟨part.payload, part.bytes⟩

/-- The set after the fragments `arrived` of a payload of `size` bytes. -/
structure Collected (size : Nat) (arrived : List FragmentPacket) (set : FragmentSet) : Prop where
  tidy : Tidy set
  stored : ∀ (o : Nat) (st : StoredFragment),
    set.fragments[o]? = some st ↔ ∃ part ∈ arrived, part.start = o ∧ storedOf part = st
  payloadBytes : set.payloadBytes = payloadSize arrived
  finalLength : set.finalLength = if arrived.all (·.fragment.more) then none else some size
  template : ∀ t, set.template = some t ↔
    ∃ part ∈ arrived, part.start = 0 ∧ part.decoded.template = t

theorem Collected.fresh (size : Nat) (source : IpAddr) (expiresAt : Nat) :
    Collected size [] { source := source, expiresAt := expiresAt } where
  tidy := .fresh _ _
  stored := by
    intro o st
    simp
  payloadBytes := rfl
  finalLength := rfl
  template := by
    intro t
    simp

/-- **One arrival.** A fragment that overlaps none of those that arrived, and lies inside the payload,
is accepted. -/
theorem Collected.accept {size : Nat} {arrived : List FragmentPacket} {set : FragmentSet}
    (h : Collected size arrived set) {part : FragmentPacket} (hne : part.payload ≠ [])
    (hclear : ∀ other ∈ arrived, other.start + other.payload.length ≤ part.start ∨
      part.start + part.payload.length ≤ other.start)
    (hinside : ∀ other ∈ arrived, other.start + other.payload.length ≤ size)
    (hend : part.start + part.payload.length ≤ size)
    (hlast : part.fragment.more = false → part.start + part.payload.length = size) (amount : Nat) :
    ∃ set', FragmentReassembler.accept set part.fragment part.start
        (part.start + part.payload.length) part.decoded part.bytes amount = .ok set' ∧
      Collected size (arrived ++ [part]) set' := by
  have hpos := List.length_pos_of_ne_nil hne
  have hadmits : Admits set part.fragment part.start (part.start + part.payload.length) := by
    refine ⟨?_, ?_, ?_, ?_⟩
    · intro o st hst
      obtain ⟨other, hother, rfl, rfl⟩ := (h.stored o st).mp hst
      exact hclear other hother
    · intro length hlength
      rw [h.finalLength] at hlength
      split at hlength
      · cases hlength
      · cases hlength
        exact hend
    · intro hmore
      rw [hlast hmore]
      refine ⟨?_, ?_⟩
      · intro length hlength
        rw [h.finalLength] at hlength
        split at hlength
        · cases hlength
        · exact (Option.some.inj hlength).symm
      · intro o st hst
        obtain ⟨other, hother, rfl, rfl⟩ := (h.stored o st).mp hst
        exact hinside other hother
    · intro hzero
      cases htemplate : set.template with
      | none => rfl
      | some t =>
          -- two fragments at offset zero would overlap
          obtain ⟨other, hother, hstart, -⟩ := (h.template t).mp htemplate
          have hfirst := List.length_pos_of_ne_nil
            (show other.payload ≠ [] by
              have hst := (h.stored 0 (storedOf other)).mpr ⟨other, hother, hstart, rfl⟩
              exact List.ne_nil_of_length_pos (h.tidy.pos hst))
          have := hclear other hother
          omega
  refine ⟨_, (accept_eq_ok h.tidy (by omega)).mpr ⟨hadmits, rfl⟩, h.tidy.accepted hne hadmits _ _,
    ?_, ?_, ?_, ?_⟩
  · intro o st
    rw [getElem?_accepted]
    split
    · next heq =>
      constructor
      · intro hst
        cases hst
        exact ⟨part, by simp, heq, rfl⟩
      · rintro ⟨other, hother, hstart, rfl⟩
        rcases List.mem_append.mp hother with hother | hother
        · have hst := (h.stored _ _).mpr ⟨other, hother, rfl, rfl⟩
          have hfirst : 0 < other.payload.length := h.tidy.pos hst
          have := hclear other hother
          omega
        · rw [List.mem_singleton.mp hother]
          rfl
    · next hne' =>
      rw [h.stored]
      constructor
      · rintro ⟨other, hother, hrest⟩
        exact ⟨other, List.mem_append_left _ hother, hrest⟩
      · rintro ⟨other, hother, hstart, hst⟩
        rcases List.mem_append.mp hother with hother | hother
        · exact ⟨other, hother, hstart, hst⟩
        · rw [List.mem_singleton.mp hother] at hstart
          exact absurd hstart hne'
  · show set.payloadBytes + part.payload.length = _
    rw [h.payloadBytes, payloadSize, payloadSize, List.map_append, List.sum_append]
    rfl
  · show (if part.fragment.more then set.finalLength else _) = _
    rw [List.all_append, h.finalLength]
    cases hmore : part.fragment.more with
    | true => simp [hmore]
    | false => simp [hmore, hlast hmore]
  · intro t
    show (if part.start = 0 then some part.decoded.template else set.template) = some t ↔ _
    split
    · next hzero =>
      constructor
      · intro ht
        exact ⟨part, by simp, hzero, Option.some.inj ht⟩
      · rintro ⟨other, hother, hstart, rfl⟩
        rcases List.mem_append.mp hother with hother | hother
        · have := hadmits.template hzero
          rw [(h.template _).mpr ⟨other, hother, hstart, rfl⟩] at this
          cases this
        · rw [List.mem_singleton.mp hother]
    · next hother' =>
      rw [h.template]
      constructor
      · rintro ⟨other, hother, hrest⟩
        exact ⟨other, List.mem_append_left _ hother, hrest⟩
      · rintro ⟨other, hother, hstart, ht⟩
        rcases List.mem_append.mp hother with hother | hother
        · exact ⟨other, hother, hstart, ht⟩
        · rw [List.mem_singleton.mp hother] at hstart
          exact absurd hstart hother'

/-! ## Complete and incomplete sets

A set is complete when its intervals add up. With a piece missing the sum is too small, and with all of
them it is the payload.
-/

theorem payloadSize_append (a b : List FragmentPacket) :
    payloadSize (a ++ b) = payloadSize a + payloadSize b := by
  rw [payloadSize, List.map_append, List.sum_append]
  rfl

theorem payloadSize_perm {a b : List FragmentPacket} (h : a.Perm b) :
    payloadSize a = payloadSize b :=
  (h.map _).sum_eq

section Parts

variable {key : ReassemblyKey} {parts : List FragmentPacket} (hparts : Consecutive key 0 parts)

include hparts

/-- As long as something is missing, the set is not complete. -/
theorem Collected.incomplete {arrived missing : List FragmentPacket} {set : FragmentSet}
    (h : Collected (payloadSize parts) arrived set) (hperm : (arrived ++ missing).Perm parts)
    (hmissing : missing ≠ []) : isComplete set = false := by
  obtain ⟨part, rest, rfl⟩ := List.exists_cons_of_ne_nil hmissing
  have hne := (hparts.bounds (hperm.mem_iff.mp
    (List.mem_append_right _ List.mem_cons_self))).2.1
  have hpos := List.length_pos_of_ne_nil hne
  have hsize := payloadSize_perm hperm
  have hrest : payloadSize (part :: rest) = part.payload.length + payloadSize rest := rfl
  rw [payloadSize_append, hrest] at hsize
  unfold isComplete
  rw [h.finalLength, h.payloadBytes]
  cases arrived.all (·.fragment.more) with
  | true => simp
  | false =>
      simp only [Bool.false_eq_true, if_false, Option.some.injEq, Bool.and_eq_false_iff,
        decide_eq_false_iff_not]
      right
      omega

/-- Once everything has arrived, the set assembles to the payload behind the first header. -/
theorem Collected.complete {arrived : List FragmentPacket} {set : FragmentSet}
    (h : Collected (payloadSize parts) arrived set) (hperm : arrived.Perm parts)
    {first : FragmentPacket} {rest : List FragmentPacket} (hcons : parts = first :: rest)
    {packet : Bytes}
    (hrebuild : rebuild first.decoded.template (parts.flatMap FragmentPacket.payload) = .ok packet) :
    isComplete set = true ∧ assemble set =
      .ok { packet, originalFragments := parts.map FragmentPacket.bytes } := by
  have hfirst : first ∈ parts := by
    rw [hcons]
    exact List.mem_cons_self
  have hzero : first.start = 0 := by
    rw [hcons] at hparts
    exact hparts.1.start
  have htemplate : set.template = some first.decoded.template :=
    (h.template _).mpr ⟨first, hperm.mem_iff.mpr hfirst, hzero, rfl⟩
  -- the last piece has arrived, and with it the length
  have hfinal : set.finalLength = some (payloadSize parts) := by
    obtain ⟨last, hlast, hmore⟩ := hparts.exists_last (List.ne_nil_of_mem hfirst)
    rw [h.finalLength, if_neg]
    intro hall
    rw [List.all_eq_true] at hall
    have := hall last (hperm.mem_iff.mpr hlast)
    rw [hmore] at this
    cases this
  -- the map lists the pieces in the order of their offsets
  have hlist : set.fragments.toList = parts.map fun part => (part.start, storedOf part) := by
    apply toList_eq_of_mem
    · rw [List.pairwise_map]
      apply hparts.pairwise.imp_of_mem
      intro a b ha _ hab
      have hpos := List.length_pos_of_ne_nil (hparts.bounds ha).2.1
      show a.start < b.start
      omega
    · intro o st
      rw [h.stored, List.mem_map]
      constructor
      · rintro ⟨part, hpart, rfl, rfl⟩
        exact ⟨part, hperm.mem_iff.mp hpart, rfl⟩
      · rintro ⟨part, hpart, heq⟩
        cases heq
        exact ⟨part, hperm.mem_iff.mpr hpart, rfl, rfl⟩
  refine ⟨?_, ?_⟩
  · unfold isComplete
    rw [htemplate, hfinal, h.payloadBytes, payloadSize_perm hperm]
    simp
  · unfold assemble
    rw [htemplate, hlist, List.map_map]
    have hpayload : (parts.map (Prod.snd ∘ fun part => (part.start, storedOf part))).flatMap
        StoredFragment.payload = parts.flatMap FragmentPacket.payload := by
      rw [List.flatMap_map]
      rfl
    have hbytes : (parts.map (Prod.snd ∘ fun part => (part.start, storedOf part))).map
        StoredFragment.original = parts.map FragmentPacket.bytes := by
      rw [List.map_map]
      rfl
    simp only [hpayload, hbytes]
    show (rebuild first.decoded.template (parts.flatMap FragmentPacket.payload) >>= _) = _
    rw [hrebuild]
    rfl

end Parts

/-! ## Submissions -/

/-- The packet, if the operation submits a fragment under `key`. -/
def pushedUnder (key : ReassemblyKey) : Op → Option Bytes
  | .expire _ => none
  | .push packet _ =>
    match parsePacket packet with
    | .error _ => none
    | .ok parsed =>
      match parsed.fragment with
      | none => none
      | some fragment =>
        if (fragment.offset ≠ 0 ∨ fragment.more = true) ∧
            ReassemblyKey.ofParsed parsed fragment = key then some packet
        else none

def Op.time : Op → Nat
  | .push _ now => now
  | .expire now => now

theorem pushedUnder_part {part : FragmentPacket} (hpart : part.start ≠ 0 ∨ part.fragment.more = true)
    (t : Nat) : pushedUnder part.key (.push part.bytes t) = some part.bytes := by
  have hpart' : part.fragment.offset ≠ 0 ∨ part.fragment.more = true := by
    apply hpart.imp_left
    intro hstart hzero
    apply hstart
    rw [FragmentPacket.start, hzero, Nat.zero_mul]
  unfold pushedUnder
  simp only [part.parses, part.fragment_eq]
  rw [if_pos ⟨hpart', rfl⟩]

theorem pushedUnder_eq_some {key : ReassemblyKey} {op : Op} {packet : Bytes}
    (h : pushedUnder key op = some packet) : ∃ t, op = .push packet t := by
  cases op with
  | expire now => cases h
  | push packet' now =>
      unfold pushedUnder at h
      simp only at h
      split at h
      · cases h
      split at h
      · cases h
      split at h
      · cases h
        exact ⟨now, rfl⟩
      · cases h

/-- A fragment is submitted with the data that were read from it. -/
theorem push_part (r : FragmentReassembler) {part : FragmentPacket}
    (hpart : part.start ≠ 0 ∨ part.fragment.more = true) (now : Nat) :
    r.push part.bytes now = (r.expire now).pushFragment part.bytes now part.parsed part.fragment := by
  unfold push
  simp only [part.parses, part.fragment_eq]
  rw [if_neg]
  rintro ⟨hzero, hmore⟩
  rcases hpart with hpart | hpart
  · apply hpart
    rw [FragmentPacket.start, hzero, Nat.zero_mul]
  · simp [hpart] at hmore

/-- An accepted fragment is stored, and the set is assembled if it is complete now. -/
theorem pushFragment_accepted {r : FragmentReassembler} {part : FragmentPacket} {now : Nat}
    (hne : part.payload ≠ []) (haligned : part.fragment.more = true → part.payload.length % 8 = 0)
    (hend : part.start + part.payload.length ≤ 65535)
    (haffords : Affords r part.key.source (charge part.decoded part.bytes)) {set : FragmentSet}
    (haccept : accept (r.openSet part.key now).1 part.fragment part.start
      (part.start + part.payload.length) part.decoded part.bytes (charge part.decoded part.bytes) =
        .ok set) :
    (isComplete set = false → r.pushFragment part.bytes now part.parsed part.fragment =
      (.ok .pending,
        (r.openSet part.key now).2.storeSet part.key set (charge part.decoded part.bytes))) ∧
    (∀ datagram whole, isComplete set = true → assemble set = .ok datagram →
      parsePacket datagram.packet = .ok whole →
      r.pushFragment part.bytes now part.parsed part.fragment = (.ok (.complete datagram),
        ((r.openSet part.key now).2.storeSet part.key set
          (charge part.decoded part.bytes)).removeSet part.key)) := by
  have hprepare : prepare part.bytes part.fragment =
      .ok (part.decoded, part.start + part.payload.length) :=
    prepare_eq_ok.mpr ⟨part.decodes, rfl, hend, hne, haligned⟩
  have hquota : ¬ (r.sourceBytes[part.key.source]?.getD 0 + charge part.decoded part.bytes >
      r.perSourceBytes ∨ r.retainedBytes + charge part.decoded part.bytes > r.globalBytes) := by
    have h₁ := haffords.1
    have h₂ := haffords.2
    omega
  have hinsert : ∀ status next, r.insertFragment part.key part.fragment part.start
        (part.start + part.payload.length) part.decoded part.bytes
        (charge part.decoded part.bytes) now = (.ok status, next) →
      r.pushFragment part.bytes now part.parsed part.fragment = (.ok status, next) := by
    intro status next hstatus
    have hsame : r.insertFragment (.ofParsed part.parsed part.fragment) part.fragment
        (part.fragment.offset * 8) (part.start + part.payload.length) part.decoded part.bytes
        (part.decoded.payload.length + part.bytes.length) now = (.ok status, next) := hstatus
    unfold pushFragment
    simp only [hprepare, hsame]
  refine ⟨?_, ?_⟩
  · intro hcomplete
    apply hinsert
    unfold insertFragment
    rw [if_neg hquota]
    simp only [haccept, hcomplete, Bool.not_false, if_true]
  · intro datagram whole hcomplete hassemble hwhole
    apply hinsert
    unfold insertFragment
    rw [if_neg hquota]
    simp only [haccept, hcomplete, hassemble, hwhole, Bool.not_true, Bool.false_eq_true, if_false]

/-- An operation under another key leaves the set alone, if it does not expire it. -/
theorem step_other {r : FragmentReassembler} {key : ReassemblyKey} {op : Op}
    (h : pushedUnder key op = none) :
    (r.step op).sets[key]? = (r.expire op.time).sets[key]? := by
  cases op with
  | expire now => rfl
  | push packet now =>
  show (r.push packet now).2.sets[key]? = (r.expire now).sets[key]?
  rcases @push_eq r packet now with ⟨result, hpush, -⟩ |
    ⟨parsed, fragment, hparse, hfragment, hpart, hpush⟩
  · rw [hpush]
  have hother : key ≠ .ofParsed parsed fragment := by
    intro heq
    unfold pushedUnder at h
    simp only [hparse, hfragment] at h
    rw [if_pos ⟨hpart, heq.symm⟩] at h
    cases h
  rw [hpush]
  have hopen := openSet_snd_sets (r.expire now) (.ofParsed parsed fragment) now hother
  have hcases := pushed (r.expire now) packet now parsed fragment
  generalize (r.expire now).pushFragment packet now parsed fragment = result at hcases
  cases hcases with
  | refused => rw [removeSet_sets, if_neg hother.symm]
  | discarded => rw [removeSet_sets, if_neg hother.symm, hopen]
  | spoiled =>
      rw [removeSet_sets, if_neg hother.symm, removeSet_sets, if_neg hother.symm, storeSet_sets,
        if_neg hother.symm, hopen]
  | pending => rw [storeSet_sets, if_neg hother.symm, hopen]
  | completed =>
      rw [removeSet_sets, if_neg hother.symm, storeSet_sets, if_neg hother.symm, hopen]

/-! ## Limits -/

/-- The configured bounds, which no operation changes. -/
def limits (r : FragmentReassembler) : Nat × Nat × Nat :=
  (r.perSourceBytes, r.globalBytes, r.timeoutSeconds)

theorem limits_removeSet (r : FragmentReassembler) (key : ReassemblyKey) :
    (r.removeSet key).limits = r.limits := by
  unfold removeSet
  split <;> rfl

theorem limits_openSet (r : FragmentReassembler) (key : ReassemblyKey) (now : Nat) :
    (r.openSet key now).2.limits = r.limits := by
  unfold openSet
  split <;> rfl

theorem limits_storeSet (r : FragmentReassembler) (key : ReassemblyKey) (set : FragmentSet)
    (amount : Nat) : (r.storeSet key set amount).limits = r.limits := rfl

theorem limits_expireLoop (r : FragmentReassembler) (now turns : Nat) :
    (r.expireLoop now turns).limits = r.limits := by
  induction turns generalizing r with
  | zero => rfl
  | succ turns ih =>
      unfold expireLoop
      split
      · rfl
      split
      · rfl
      · rw [ih, limits_removeSet]

theorem limits_expire (r : FragmentReassembler) (now : Nat) : (r.expire now).limits = r.limits :=
  limits_expireLoop r now _

theorem limits_step (r : FragmentReassembler) (op : Op) : (r.step op).limits = r.limits := by
  cases op with
  | expire now => exact limits_expire r now
  | push packet now =>
  show (r.push packet now).2.limits = r.limits
  rcases @push_eq r packet now with ⟨result, hpush, -⟩ | ⟨parsed, fragment, -, -, -, hpush⟩
  · rw [hpush]
    exact limits_expire r now
  rw [hpush, ← limits_expire r now]
  have hcases := pushed (r.expire now) packet now parsed fragment
  generalize (r.expire now).pushFragment packet now parsed fragment = result at hcases
  cases hcases <;>
    simp only [limits_removeSet, limits_storeSet, limits_openSet]

theorem limits_run (r : FragmentReassembler) (ops : List Op) : (r.run ops).limits = r.limits :=
  exec_invariant (I := fun s => s.limits = r.limits) rfl
    (fun s op h => (limits_step s op).trans h) ops

/-! ## Collecting a datagram

Between two pieces other keys may be pushed and sets may expire. The set of the datagram is what its pieces
have made it, as long as its deadline has not come.
-/

/-- The state of the set under `key` when the fragments `arrived` have come in. -/
structure Held (key : ReassemblyKey) (size deadline : Nat) (arrived : List FragmentPacket)
    (r : FragmentReassembler) : Prop where
  wf : WF r
  empty : arrived = [] → r.sets[key]? = none
  some : arrived ≠ [] → ∃ set, r.sets[key]? = some set ∧ Collected size arrived set ∧
    set.expiresAt = deadline

/-- Whatever happens under other keys before the deadline, the set stays as it is. -/
theorem Held.frame {key : ReassemblyKey} {size deadline : Nat} {arrived : List FragmentPacket}
    {r : FragmentReassembler} (h : Held key size deadline arrived r) {op : Op}
    (hop : pushedUnder key op = none) (htime : op.time < deadline) :
    Held key size deadline arrived (r.step op) where
  wf := h.wf.run [op]
  empty := by
    intro hnil
    rw [step_other hop]
    cases hset : (r.expire op.time).sets[key]? with
    | none => rfl
    | some set =>
        have hbefore := expire_sets hset
        rw [h.empty hnil] at hbefore
        cases hbefore
  some := by
    intro hne
    obtain ⟨set, hset, hcollected, hdue⟩ := h.some hne
    refine ⟨set, ?_, hcollected, hdue⟩
    rw [step_other hop]
    exact h.wf.expire_keeps hset (by omega)

/-- The set that the next fragment finds. -/
theorem Held.opened {key : ReassemblyKey} {size deadline : Nat} {arrived : List FragmentPacket}
    {r : FragmentReassembler} (h : Held key size deadline arrived r) {now : Nat}
    (htime : now < deadline)
    (hfirst : arrived = [] → saturatingAdd now r.timeoutSeconds = deadline) :
    Collected size arrived ((r.expire now).openSet key now).1 ∧
      ((r.expire now).openSet key now).1.expiresAt = deadline := by
  by_cases hnil : arrived = []
  · have hnone : (r.expire now).sets[key]? = none := by
      cases hset : (r.expire now).sets[key]? with
      | none => rfl
      | some set =>
          have hbefore := expire_sets hset
          rw [h.empty hnil] at hbefore
          cases hbefore
    have htimeout : (r.expire now).timeoutSeconds = r.timeoutSeconds :=
      congrArg (fun l => l.2.2) (limits_expire r now)
    rcases openSet_fst (r.expire now) key now with ⟨set, hset, -⟩ | ⟨-, hfresh⟩
    · rw [hnone] at hset
      cases hset
    · rw [hfresh, htimeout, hnil]
      exact ⟨.fresh _ _ _, hfirst hnil⟩
  · obtain ⟨set, hset, hcollected, hdue⟩ := h.some hnil
    have hkept := h.wf.expire_keeps hset (show now < set.expiresAt by omega)
    rcases openSet_fst (r.expire now) key now with ⟨set', hset', hopen⟩ | ⟨hnone, -⟩
    · rw [hkept] at hset'
      cases hset'
      rw [hopen]
      exact ⟨hcollected, hdue⟩
    · rw [hkept] at hnone
      cases hnone

theorem Consecutive.part_of_several {key : ReassemblyKey} {parts : List FragmentPacket}
    (h : Consecutive key 0 parts) (hseveral : 2 ≤ parts.length) {part : FragmentPacket}
    (hpart : part ∈ parts) : part.start ≠ 0 ∨ part.fragment.more = true := by
  match parts, h, hseveral with
  | first :: second :: rest, h, _ =>
      obtain ⟨hcarries, hne, -, hrest⟩ := h
      rcases List.mem_cons.mp hpart with rfl | hpart
      · right
        rw [hcarries.more]
        rfl
      · left
        have hpos := List.length_pos_of_ne_nil hne
        have := (hrest.bounds hpart).2.2.2.1
        omega

section Arrivals

variable {key : ReassemblyKey} {parts : List FragmentPacket} (hparts : Consecutive key 0 parts)
  (hseveral : 2 ≤ parts.length) (hshort : payloadSize parts ≤ 65535)

include hparts hseveral hshort

/-- **One fragment of the datagram.** It is kept while others are missing, and completes the datagram
when it is the last one. -/
theorem Held.push_part {deadline : Nat} {arrived missing : List FragmentPacket}
    {part : FragmentPacket} {r : FragmentReassembler}
    (h : Held key (payloadSize parts) deadline arrived r)
    (hperm : (arrived ++ part :: missing).Perm parts) {now : Nat} (htime : now < deadline)
    (hfirst : arrived = [] → saturatingAdd now r.timeoutSeconds = deadline)
    (haffords : Affords (r.expire now) key.source (charge part.decoded part.bytes)) :
    (missing ≠ [] → (r.push part.bytes now).1 = .ok .pending ∧
      Held key (payloadSize parts) deadline (arrived ++ [part]) (r.push part.bytes now).2) ∧
    (missing = [] → ∀ first rest packet whole, parts = first :: rest →
      rebuild first.decoded.template (parts.flatMap FragmentPacket.payload) = .ok packet →
      parsePacket packet = .ok whole →
      (r.push part.bytes now).1 = .ok (.complete
        { packet, originalFragments := parts.map FragmentPacket.bytes }) ∧
      (r.push part.bytes now).2.sets[key]? = none) := by
  have hmem : part ∈ parts := hperm.mem_iff.mp (by simp)
  obtain ⟨hkey, hne, haligned, -, hend⟩ := hparts.bounds hmem
  have hpart := Consecutive.part_of_several hparts hseveral hmem
  have harrived : ∀ other ∈ arrived, other ∈ parts := by
    intro other hother
    exact hperm.mem_iff.mp (List.mem_append_left _ hother)
  -- the fragments lie apart in every order of arrival
  have hpairs : (arrived ++ part :: missing).Pairwise fun a b =>
      a.start + a.payload.length ≤ b.start ∨ b.start + b.payload.length ≤ a.start := by
    rw [hperm.pairwise_iff fun {a b} hab => hab.symm]
    exact hparts.pairwise.imp fun {a b} hab => .inl hab
  have hclear : ∀ other ∈ arrived, other.start + other.payload.length ≤ part.start ∨
      part.start + part.payload.length ≤ other.start := by
    intro other hother
    exact (List.pairwise_append.mp hpairs).2.2 other hother part List.mem_cons_self
  obtain ⟨hcollected, hdue⟩ := h.opened htime hfirst
  obtain ⟨set, haccept, hcollected'⟩ := hcollected.accept hne hclear
    (fun other hother => by
      have := (hparts.bounds (harrived other hother)).2.2.2.2
      omega)
    (by omega) (fun hmore => by
      have := hparts.end_of_last hmem hmore
      omega) (charge part.decoded part.bytes)
  obtain ⟨hopen, hset, -⟩ := (h.wf.expire now).openSet key now
  obtain ⟨-, hdue', -⟩ := accept_usage haccept
  subst hkey
  obtain ⟨hpending, hcomplete⟩ := pushFragment_accepted hne haligned (by omega) haffords haccept
  rw [FragmentReassembler.push_part r hpart now]
  refine ⟨?_, ?_⟩
  · intro hmissing
    have hperm' : (arrived ++ [part] ++ missing).Perm parts := by
      rwa [List.append_assoc, List.singleton_append]
    rw [hpending (hcollected'.incomplete hparts hperm' hmissing)]
    refine ⟨rfl, ?_, ?_, ?_⟩
    · obtain ⟨hsource, hsame, hretained⟩ := accept_usage haccept
      exact hopen.storeSet hset hsource hsame hretained
    · intro hnil
      simp at hnil
    · intro _
      refine ⟨set, ?_, hcollected', hdue'.trans hdue⟩
      rw [storeSet_sets, if_pos rfl]
  · intro hmissing first rest packet whole hcons hrebuild hwhole
    subst hmissing
    obtain ⟨hfull, hassemble⟩ := hcollected'.complete hparts hperm hcons hrebuild
    rw [hcomplete _ whole hfull hassemble hwhole]
    refine ⟨rfl, ?_⟩
    rw [removeSet_sets, if_pos rfl]

/-- **The set between two operations.** Before any operation of the run that is not the last of the
set, it holds exactly the fragments that were submitted so far. -/
theorem held_before {r : FragmentReassembler} (hwf : WF r) (hfree : r.sets[key]? = none)
    {ops : List Op} {arrivals : List FragmentPacket} (harrivals : arrivals.Perm parts)
    {deadline : Nat} (htime : ∀ op ∈ ops, op.time < deadline)
    (hdeadline : ∀ before packet t after, ops = before ++ .push packet t :: after →
      before.filterMap (pushedUnder key) = [] → saturatingAdd t r.timeoutSeconds = deadline)
    (haffords : ∀ (before : List Op) (part : FragmentPacket) (t : Nat) (after : List Op),
      ops = before ++ .push part.bytes t :: after → part ∈ parts →
        Affords ((r.run before).expire t) key.source (charge part.decoded part.bytes))
    (before : List Op) : ∀ {after : List Op} {arrived missing : List FragmentPacket},
      ops = before ++ after → arrivals = arrived ++ missing →
      before.filterMap (pushedUnder key) = arrived.map FragmentPacket.bytes → missing ≠ [] →
      Held key (payloadSize parts) deadline arrived (r.run before) := by
  induction before using List.reverseRecOn with
  | nil =>
      intro after arrived missing _ _ harrived _
      have hnil : arrived = [] := List.map_eq_nil_iff.mp harrived.symm
      refine ⟨hwf, fun _ => hfree, fun hne => absurd hnil hne⟩
  | append_singleton before op ih =>
      intro after arrived missing hops hsplit harrived hmissing
      rw [List.append_assoc, List.singleton_append] at hops
      rw [List.filterMap_append] at harrived
      have hop : op ∈ ops := by
        rw [hops]
        simp
      show Held key _ deadline arrived (exec step r (before ++ [op]))
      rw [exec_concat]
      cases hkeyed : pushedUnder key op with
      | none =>
          simp only [List.filterMap_cons, hkeyed, List.filterMap_nil, List.append_nil] at harrived
          exact (ih hops hsplit harrived hmissing).frame hkeyed (htime op hop)
      | some packet =>
          obtain ⟨t, rfl⟩ := pushedUnder_eq_some hkeyed
          simp only [List.filterMap_cons, hkeyed, List.filterMap_nil] at harrived
          obtain ⟨arrived', last, rfl, hbefore, hlast⟩ :=
            List.map_eq_append_iff.mp harrived.symm
          obtain ⟨part, nothing, rfl, hpacket, hnothing⟩ := List.map_eq_cons_iff.mp hlast
          obtain rfl : nothing = [] := List.map_eq_nil_iff.mp hnothing
          subst hpacket
          rw [List.append_assoc, List.singleton_append] at hsplit
          have hperm : (arrived' ++ part :: missing).Perm parts := by
            rwa [← hsplit]
          have hheld := ih hops hsplit hbefore.symm (by simp)
          have htimeout : (r.run before).timeoutSeconds = r.timeoutSeconds :=
            congrArg (fun l => l.2.2) (limits_run r before)
          have hmem : part ∈ parts := hperm.mem_iff.mp (by simp)
          refine ((hheld.push_part hparts hseveral hshort hperm (htime _ hop) ?_
            (haffords before part t after hops hmem)).1 hmissing).2
          intro hnil
          rw [htimeout]
          apply hdeadline before _ t after hops
          rw [← hbefore, hnil]
          rfl

end Arrivals

/-! ## Datagrams

The layout of a datagram, for either family: where its pieces are cut, and that their first one rebuilds
it.
-/

/-- What a packet is charged with while it is retained. -/
def chargeOf (packet : Bytes) : Nat :=
  match parsePacket packet with
  | .error _ => 0
  | .ok parsed =>
    match parsed.fragment with
    | none => 0
    | some fragment =>
      match decodeFragment packet fragment with
      | .error _ => 0
      | .ok decoded => charge decoded packet

theorem chargeOf_part (part : FragmentPacket) :
    chargeOf part.bytes = charge part.decoded part.bytes := by
  unfold chargeOf
  simp only [part.parses, part.fragment_eq, part.decodes]

end FragmentReassembler

/-- The fragments of a datagram are consecutive, and the first one rebuilds it. -/
theorem Layout.parts {datagram : Bytes} {whole : ParsedPacket} (l : Layout datagram)
    (hparse : parsePacket datagram = .ok whole) (hwhole : whole.fragment = none)
    (pieces : List Bytes) : ∀ offset : Nat, offset % 8 = 0 →
      pieces.flatten = (datagram.drop l.lead).drop offset → (offset = 0 → 2 ≤ pieces.length) →
      (∀ piece ∈ pieces, piece ≠ []) → (∀ piece ∈ pieces.dropLast, piece.length % 8 = 0) →
      (∀ piece ∈ pieces, l.Fits piece) →
      (offset = 0 → ∀ piece ∈ pieces.head?, l.headers ≤ piece.length) →
      ∃ parts : List FragmentPacket, parts.map FragmentPacket.bytes = l.fragments offset pieces ∧
        parts.map FragmentPacket.payload = pieces ∧ Consecutive l.key offset parts ∧
        (offset = 0 → ∀ first ∈ parts.head?,
          rebuild first.decoded.template (datagram.drop l.lead) = .ok l.rebuilt) := by
  induction pieces with
  | nil =>
      intro offset _ _ _ _ _ _ _
      exact ⟨[], rfl, rfl, trivial, fun _ _ h => by cases h⟩
  | cons piece rest ih =>
      intro offset haligned hflatten hseveral hne hdropLast hfits hheaders
      obtain ⟨hlead, -⟩ := l.lead_le hparse hwhole
      have hpos := List.length_pos_of_ne_nil (hne piece List.mem_cons_self)
      rw [List.flatten_cons] at hflatten
      have hroom : piece.length + rest.flatten.length = datagram.length - l.lead - offset := by
        have hlength := congrArg List.length hflatten
        simpa only [List.length_append, List.length_drop] using hlength
      -- a piece is a fragment because it is not the first, or not the last
      have hpart : offset ≠ 0 ∨ (!rest.isEmpty) = true := by
        by_cases hzero : offset = 0
        · right
          have := hseveral hzero
          cases rest with
          | nil => simp at this
          | cons => rfl
        · exact .inl hzero
      obtain ⟨part, hbytes, hcarries, hrebuild⟩ := l.fragment_packet hparse hwhole haligned hpart
        (by omega) (hfits piece List.mem_cons_self) (by
          intro hzero
          refine ⟨?_, hheaders hzero piece rfl⟩
          rw [hzero, List.drop_zero] at hflatten
          rw [← hflatten, List.take_left])
      -- all pieces but the last are aligned
      have hpiece : rest ≠ [] → piece.length % 8 = 0 := by
        intro hrest
        apply hdropLast
        rw [List.dropLast_cons_of_ne_nil hrest]
        exact List.mem_cons_self
      have hnext : rest.flatten = (datagram.drop l.lead).drop (offset + piece.length) := by
        rw [← List.drop_drop, ← hflatten, List.drop_left]
      by_cases hrest : rest = []
      · subst hrest
        refine ⟨[part], by rw [List.map_singleton, hbytes]; rfl,
          by rw [List.map_singleton, hcarries.payload], ⟨⟨hcarries.key, hcarries.start, hcarries.more,
            rfl⟩, ?_, ?_, trivial⟩, ?_⟩
        · rw [hcarries.payload]
          exact hne piece List.mem_cons_self
        · intro hne'
          exact absurd rfl hne'
        · intro hzero first hfirst
          cases hfirst
          exact hrebuild hzero
      · obtain ⟨parts, hparts, hpayloads, hconsecutive, -⟩ := ih (offset + piece.length)
          (by have := hpiece hrest; omega) hnext (fun h => by omega)
          (fun p hp => hne p (List.mem_cons_of_mem _ hp))
          (fun p hp => hdropLast p (by
            rw [List.dropLast_cons_of_ne_nil hrest]
            exact List.mem_cons_of_mem _ hp))
          (fun p hp => hfits p (List.mem_cons_of_mem _ hp)) (fun h => by omega)
        have hempty : parts.isEmpty = rest.isEmpty := by
          rw [← hpayloads, List.isEmpty_map]
        refine ⟨part :: parts, by rw [List.map_cons, hbytes, hparts]; rfl,
          by rw [List.map_cons, hcarries.payload, hpayloads], ⟨⟨hcarries.key, hcarries.start, ?_, rfl⟩,
            ?_, ?_, ?_⟩, ?_⟩
        · rw [hcarries.more, hempty]
        · rw [hcarries.payload]
          exact hne piece List.mem_cons_self
        · intro _
          rw [hcarries.payload]
          exact hpiece hrest
        · rw [hcarries.payload]
          exact hconsecutive
        · intro hzero first hfirst
          cases hfirst
          exact hrebuild hzero

namespace FragmentReassembler

/-- **Reassembly is complete and independent of the order of arrival.** Take any datagram that the
parser accepts as a whole, cut it into two or more aligned pieces behind its headers, and submit the
fragments in any order, with anything under other keys in between, from the first one until before its
deadline, while the charges of what is held leave room for each: every fragment but the last one
submitted is kept, and the last one returns the rebuilt datagram with all fragments in the order of
their offsets. Afterwards nothing is held or counted under the key. -/
theorem fragments_complete_in_any_order (perSourceBytes globalBytes timeoutSeconds : Nat)
    (start : FragmentReassembler)
    (hstart : new perSourceBytes globalBytes timeoutSeconds = .ok start) (history : List Op)
    (datagram : Bytes) (whole : ParsedPacket) (hparse : parsePacket datagram = .ok whole)
    (hwhole : whole.fragment = none) (l : Layout datagram) (pieces : List Bytes)
    (hpieces : pieces.flatten = datagram.drop l.lead) (hseveral : 2 ≤ pieces.length)
    (hne : ∀ piece ∈ pieces, piece ≠ []) (haligned : ∀ piece ∈ pieces.dropLast, piece.length % 8 = 0)
    (hfits : ∀ piece ∈ pieces, l.Fits piece)
    (hheaders : ∀ piece ∈ pieces.head?, l.headers ≤ piece.length)
    (hfree : (run start history).sets[l.key]? = none)
    (first : Bytes) (t₀ : Nat) (later : List Op) (hfirst : first ∈ l.fragments 0 pieces)
    (horder : ((.push first t₀ :: later).filterMap (pushedUnder l.key)).Perm (l.fragments 0 pieces))
    (htime : ∀ op ∈ Op.push first t₀ :: later, op.time < saturatingAdd t₀ timeoutSeconds)
    (hquota : ∀ before packet t after, Op.push first t₀ :: later = before ++ .push packet t :: after →
      packet ∈ l.fragments 0 pieces →
      total (chargedTo l.key.source) ((run start (history ++ before)).expire t).sets +
          chargeOf packet ≤ perSourceBytes ∧
        total FragmentSet.retainedBytes ((run start (history ++ before)).expire t).sets +
          chargeOf packet ≤ globalBytes)
    (before : List Op) (packet : Bytes) (t : Nat) (after : List Op)
    (hsplit : Op.push first t₀ :: later = before ++ .push packet t :: after)
    (hpacket : packet ∈ l.fragments 0 pieces) :
    let pushed := (run start (history ++ before)).push packet t
    (after.filterMap (pushedUnder l.key) ≠ [] → pushed.1 = .ok .pending) ∧
    (after.filterMap (pushedUnder l.key) = [] →
      pushed.1 = .ok (.complete
        { packet := l.rebuilt, originalFragments := l.fragments 0 pieces }) ∧
      (l.Exact → l.rebuilt = datagram) ∧ pushed.2.sets[l.key]? = none ∧
      pushed.2.retainedBytes = total FragmentSet.retainedBytes pushed.2.sets ∧
      ∀ source : IpAddr,
        pushed.2.sourceBytes[source]?.getD 0 = total (chargedTo source) pushed.2.sets) := by
  intro pushed
  obtain ⟨hlead, hbound⟩ := l.lead_le hparse hwhole
  obtain ⟨parts, hbytes, hpayloads, hparts, hrebuild⟩ := l.parts hparse hwhole pieces 0 rfl
    (by rw [List.drop_zero, hpieces]) (fun _ => hseveral) hne haligned hfits (fun _ => hheaders)
  have hlength : parts.length = pieces.length := by rw [← hpayloads, List.length_map]
  have hflat : parts.flatMap FragmentPacket.payload = datagram.drop l.lead := by
    rw [List.flatMap_def, hpayloads, hpieces]
  have hshort : payloadSize parts ≤ 65535 := by
    have hsize : payloadSize parts = (parts.flatMap FragmentPacket.payload).length := by
      rw [List.length_flatMap]
      rfl
    rw [hsize, hflat, List.length_drop]
    omega
  -- the fragments in the order of their arrival
  rw [← hbytes] at horder
  obtain ⟨arrivals, harrived, harrivals⟩ : ∃ arrivals : List FragmentPacket,
      (Op.push first t₀ :: later).filterMap (pushedUnder l.key) =
        arrivals.map FragmentPacket.bytes ∧ arrivals.Perm parts := by
    have hcomp := List.eq_map_comp_perm FragmentPacket.bytes
    exact (congrFun (congrFun hcomp _) _).mpr horder
  have hwf : WF (run start history) := (WF.of_new hstart).run history
  have hlimits : (run start history).limits = (perSourceBytes, globalBytes, timeoutSeconds) := by
    rw [limits_run]
    unfold new at hstart
    split at hstart
    · cases hstart
    · cases hstart
      rfl
  have hrun : ∀ before, run (run start history) before = run start (history ++ before) := by
    intro before
    exact (exec_append step start history before).symm
  have htimeout : (run start history).timeoutSeconds = timeoutSeconds :=
    congrArg (fun l => l.2.2) hlimits
  have hkeyed : ∀ packet' ∈ l.fragments 0 pieces, ∀ t',
      pushedUnder l.key (.push packet' t') = some packet' := by
    intro packet' hpacket' t'
    rw [← hbytes] at hpacket'
    obtain ⟨part, hpart, rfl⟩ := List.mem_map.mp hpacket'
    rw [← (hparts.bounds hpart).1]
    exact pushedUnder_part (Consecutive.part_of_several hparts (by omega) hpart) t'
  have hdeadline : ∀ before packet' t' after, Op.push first t₀ :: later =
      before ++ .push packet' t' :: after → before.filterMap (pushedUnder l.key) = [] →
      saturatingAdd t' (run start history).timeoutSeconds = saturatingAdd t₀ timeoutSeconds := by
    intro before packet' t' after hops hnone
    cases before with
    | nil =>
        cases hops
        rw [htimeout]
    | cons op before =>
        cases hops
        rw [List.filterMap_cons, hkeyed first hfirst t₀] at hnone
        cases hnone
  have haffords : ∀ (before : List Op) (part : FragmentPacket) (t' : Nat) (after : List Op),
      Op.push first t₀ :: later = before ++ .push part.bytes t' :: after → part ∈ parts →
      Affords (((run start history).run before).expire t') l.key.source
        (charge part.decoded part.bytes) := by
    intro before part t' after hops hpart
    have hmem : part.bytes ∈ l.fragments 0 pieces := by
      rw [← hbytes]
      exact List.mem_map_of_mem hpart
    obtain ⟨hsource, hglobal⟩ := hquota before part.bytes t' after hops hmem
    have hwf' := (hwf.run before).expire t'
    have hsame : (((run start history).run before).expire t').limits =
        (perSourceBytes, globalBytes, timeoutSeconds) := by
      rw [limits_expire, limits_run, hlimits]
    rw [chargeOf_part, ← hrun] at hsource hglobal
    refine ⟨?_, ?_⟩
    · rw [hwf'.bySource, show (((run start history).run before).expire t').perSourceBytes =
        perSourceBytes from congrArg Prod.fst hsame]
      exact hsource
    · rw [hwf'.retained, show (((run start history).run before).expire t').globalBytes =
        globalBytes from congrArg (fun l => l.2.1) hsame]
      exact hglobal
  -- where this submission stands among them
  rw [hsplit, List.filterMap_append, List.filterMap_cons, hkeyed packet hpacket t] at harrived
  obtain ⟨arrived, rest, rfl, hbefore, hrest⟩ := List.map_eq_append_iff.mp harrived.symm
  obtain ⟨part, missing, rfl, rfl, hmissing⟩ := List.map_eq_cons_iff.mp hrest
  have hheld := held_before hparts (by omega) hshort hwf hfree harrivals htime hdeadline haffords
    before hsplit rfl hbefore.symm (by simp)
  have hmem : part ∈ parts := harrivals.mem_iff.mp (by simp)
  have htimeout' : ((run start history).run before).timeoutSeconds = timeoutSeconds :=
    (congrArg (fun l => l.2.2) (limits_run (run start history) before)).trans htimeout
  have hstep := hheld.push_part hparts (by omega) hshort harrivals
    (htime (.push part.bytes t) (by rw [hsplit]; simp))
    (fun hnil => by
      rw [htimeout', ← htimeout]
      exact (hdeadline before _ t after hsplit (by rw [← hbefore, hnil]; rfl)).trans
        (by rw [htimeout]))
    (haffords before part t after hsplit hmem)
  rw [hrun] at hstep
  refine ⟨?_, ?_⟩
  · intro hsome
    refine (hstep.1 ?_).1
    intro hnil
    apply hsome
    rw [← hmissing, hnil]
    rfl
  · intro hnone
    have hnil : missing = [] := by
      rw [hnone] at hmissing
      exact List.map_eq_nil_iff.mp hmissing
    obtain ⟨head, tail, hcons⟩ := List.exists_cons_of_ne_nil (List.ne_nil_of_mem hmem)
    obtain ⟨hresult, hgone⟩ := hstep.2 hnil head tail l.rebuilt whole hcons
      (by rw [hflat]; exact hrebuild rfl head (by rw [hcons]; rfl)) (l.rebuilt_parses hparse hwhole)
    rw [hbytes] at hresult
    have hwf' : WF pushed.2 := ((WF.of_new hstart).run (history ++ before)).push part.bytes t
    exact ⟨hresult, l.rebuilt_eq hparse hwhole, hgone, hwf'.retained, hwf'.bySource⟩

/-- An UDP datagram in two fragments, tail first. -/
theorem two_fragments_complete_tail_first :
    ∃ start : FragmentReassembler, new 4096 8192 30 = .ok start ∧
      ((run start [.push udpTail 1]).push udpHead 2).1 =
        .ok (.complete { packet := udpWhole, originalFragments := [udpHead, udpTail] }) := by
  let start : FragmentReassembler :=
    { perSourceBytes := 4096, globalBytes := 8192, timeoutSeconds := 30 }
  let pieces : List Bytes := [[3, 232, 7, 208, 0, 16, 0, 0], [1, 2, 3, 4, 5, 6, 7, 8]]
  let l : Layout udpWhole := .ipv4 (by decide)
  have hfragments : l.fragments 0 pieces = [udpHead, udpTail] := by decide +kernel
  have hread : (parsePacket udpWhole).toOption.map ParsedPacket.fragment = some none := by
    decide +kernel
  obtain ⟨whole, hparse, hwhole⟩ : ∃ whole, parsePacket udpWhole = .ok whole ∧
      whole.fragment = none := by
    cases hparse : parsePacket udpWhole with
    | error err =>
        rw [hparse] at hread
        cases hread
    | ok whole =>
        rw [hparse] at hread
        exact ⟨whole, rfl, Option.some.inj hread⟩
  have hrebuilt : l.rebuilt = udpWhole := by decide +kernel
  have hquota : ∀ before packet t after, [Op.push udpTail 1, .push udpHead 2] =
      before ++ .push packet t :: after → packet ∈ l.fragments 0 pieces →
      total (chargedTo l.key.source) ((run start ([] ++ before)).expire t).sets +
          chargeOf packet ≤ 4096 ∧
        total FragmentSet.retainedBytes ((run start ([] ++ before)).expire t).sets +
          chargeOf packet ≤ 8192 := by
    intro before packet t after hops _
    match before, hops with
    | [], hops =>
        cases hops
        decide +kernel
    | [_], hops =>
        cases hops
        decide +kernel
    | _ :: _ :: before, hops =>
        simp only [List.cons_append, List.cons.injEq] at hops
        exact absurd hops.2.2 (by simp)
  have hcomplete := (fragments_complete_in_any_order 4096 8192 30 start rfl [] udpWhole whole hparse
    hwhole l pieces (by decide +kernel) (by decide) (by decide) (by decide)
    (fun piece _ => trivial) (by decide +kernel) (by decide +kernel) udpTail 1 [.push udpHead 2]
    (by rw [hfragments]; decide) (by rw [hfragments]; decide +kernel) (by decide) hquota
    [.push udpTail 1] udpHead 2 [] rfl (by rw [hfragments]; decide)).2 rfl
  rw [hfragments, hrebuilt] at hcomplete
  exact ⟨start, rfl, hcomplete.1⟩

/-- An UDP datagram whose header checksum is zero, spelled `0xffff`. -/
def onesChecksum : Bytes :=
  [69, 0, 0, 36, 102, 199, 0, 0, 64, 17, 255, 255, 10, 0, 0, 1, 10, 0, 0, 2, 3, 232, 7, 208, 0, 16,
    0, 0, 1, 2, 3, 4, 5, 6, 7, 8]

/-- An IPv6 datagram with seven extension headers. -/
def sevenExtensions : Bytes :=
  [96, 0, 0, 0, 0, 72, 60, 64, 253, 0, 0, 0, 0, 0, 0, 0, 0, 0, 0, 0, 0, 0, 0, 1, 253, 0, 0, 0, 0, 0, 0,
    0, 0, 0, 0, 0, 0, 0, 0, 2, 60, 0, 0, 0, 0, 0, 0, 0, 60, 0, 0, 0, 0, 0, 0, 0, 60, 0, 0, 0, 0, 0, 0,
    0, 60, 0, 0, 0, 0, 0, 0, 0, 60, 0, 0, 0, 0, 0, 0, 0, 60, 0, 0, 0, 0, 0, 0, 0, 253, 0, 0, 0, 0, 0, 0,
    0, 1, 2, 3, 4, 5, 6, 7, 8, 9, 10, 11, 12, 13, 14, 15, 16]

/-- A fragment of the same source under another identification. -/
def otherHead : Bytes :=
  [69, 0, 0, 28, 0, 9, 32, 0, 64, 17, 70, 198, 10, 0, 0, 1, 10, 0, 0, 2, 3, 232, 7, 208, 0, 16, 0, 0]

/-- A datagram with the other spelling of a zero checksum does not come back as it was; the fragments
of one with seven extension headers are refused though the datagram is not; and an operation under
another key discards the set if its clock reads a later time than the fragments'. -/
theorem reassembly_not_always_exact :
    ((parsePacket onesChecksum).toOption.map ParsedPacket.fragment = some none ∧
      (u16At onesChecksum 6).testBit 15 = false ∧
      ∃ datagram, ((run { perSourceBytes := 4096, globalBytes := 8192, timeoutSeconds := 30 }
          [.push (ipv4FragmentOf onesChecksum 0 true (slice onesChecksum 20 28)) 1]).push
            (ipv4FragmentOf onesChecksum 8 false (slice onesChecksum 28 36)) 2).1 =
          .ok (.complete datagram) ∧ datagram.packet ≠ onesChecksum) ∧
    ((parsePacket sevenExtensions).toOption.map ParsedPacket.fragment = some none ∧
      (push { perSourceBytes := 4096, globalBytes := 8192, timeoutSeconds := 30 }
        (ipv6FragmentOf sevenExtensions (.start sevenExtensions) 7 0 true
          (slice sevenExtensions 40 104)) 1).1 = .error .malformed) ∧
    ((run { perSourceBytes := 4096, globalBytes := 8192, timeoutSeconds := 30 }
        [.push udpTail 1, .push otherHead 31]).push udpHead 2).1 = .ok .pending := by
  refine ⟨⟨by decide +kernel, by decide +kernel, ?_⟩, ⟨by decide +kernel, by decide +kernel⟩,
    by decide +kernel⟩
  refine ⟨{
    packet := overwrite onesChecksum 10 [0, 0]
    originalFragments := [ipv4FragmentOf onesChecksum 0 true (slice onesChecksum 20 28),
      ipv4FragmentOf onesChecksum 8 false (slice onesChecksum 28 36)] }, ?_, ?_⟩
  · decide +kernel
  · decide +kernel

end FragmentReassembler

end Peerward.Dataplane
