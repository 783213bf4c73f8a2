import Peerward.Carrier.FragmentSteps

/-!
# Fragmentation round-trips under reordering and duplication

`Cut` is a frame together with the geometry `split` chose for it. Its fragments parse back to that
geometry, and `Progress` follows the frame through a run that interleaves them with anything else:
nothing has arrived yet, some parts have and are in place, or all have and the id is retired.
-/

namespace Peerward.Carrier

open Std Peerward.Lib

/-! ## Counting bits -/

theorem countOnes_eq_iff {seen : BitVec 64} {count : Nat} (hcount : count ≤ 64)
    (hhigh : ∀ i, seen.getLsbD i = true → i < count) :
    countOnes seen = count ↔ ∀ i < count, seen.getLsbD i = true := by
  have hrange : List.range 64 = List.range count ++ (List.range (64 - count)).map (count + ·) := by
    rw [← List.range_add]
    congr 1
    omega
  have hnone : ((List.range (64 - count)).map (count + ·)).countP (fun i => seen.getLsbD i) = 0 := by
    rw [List.countP_eq_zero]
    intro i hi hseen
    obtain ⟨k, -, rfl⟩ := List.mem_map.mp hi
    have := hhigh _ hseen
    omega
  have hall : (List.range count).countP (fun i => seen.getLsbD i) = (List.range count).length ↔
      ∀ i ∈ List.range count, seen.getLsbD i = true := List.countP_eq_length
  rw [List.length_range] at hall
  rw [countOnes, hrange, List.countP_append, hnone, Nat.add_zero, hall]
  simp only [List.mem_range]

/-! ## A frame cut into fragments

`split` chooses a stride from the path and writes the parts in order. What is needed of them afterwards is
that each parses back to the geometry of the frame and brings the bytes of its place.
-/

/-- A frame that `split` accepts, with the stride it chose. -/
structure Cut where
  id : Nat
  frame : Bytes
  stride : Nat
  id_ne : id ≠ 0
  id_lt : id < 2 ^ 64
  frame_ne : frame ≠ []
  frame_le : frame.length ≤ MAX_FRAME
  stride_pos : 0 < stride
  stride_le : stride ≤ MAX_FRAME
  count_le : divCeil frame.length stride ≤ MAX_FRAGMENTS

namespace Cut

def count (c : Cut) : Nat := divCeil c.frame.length c.stride

def header (c : Cut) (index : Nat) : Header where
  id := c.id
  total := c.frame.length
  stride := c.stride
  index := index
  count := c.count

def body (c : Cut) (index : Nat) : Bytes :=
  slice c.frame (index * c.stride) (index * c.stride + c.stride)

def part (c : Cut) (index : Nat) : Bytes := (c.header index).encode (c.body index)

def parts (c : Cut) : List Bytes := (List.range c.count).map c.part

end Cut

/-- What `split` returns. -/
theorem split_eq_ok {id : UInt64} {frame : Bytes} {datagramLimit : Nat} {parts : List Bytes}
    (h : split id frame datagramLimit = .ok parts) :
    ∃ c : Cut, c.id = id.toNat ∧ c.frame = frame ∧ c.parts = parts ∧
      HEADER + c.stride ≤ datagramLimit := by
  unfold split at h
  split at h
  · cases h
  · next hframe =>
    simp only at h
    split at h
    · cases h
    · next hstride =>
      cases h
      rw [not_or, not_or] at hframe
      rw [not_or] at hstride
      have hid : id.toNat ≠ 0 := fun h0 => hframe.1 (UInt64.toNat_inj.mp h0)
      refine ⟨⟨id.toNat, frame, min (datagramLimit - HEADER) MAX_FRAME, hid, id.toNat_lt,
        hframe.2.1, by omega, by omega, by omega, by omega⟩, rfl, rfl, ?_, ?_⟩
      · refine List.ext_getElem? fun i => ?_
        simp only [Cut.parts, Cut.count, chunks, List.getElem?_map, List.getElem?_mapIdx]
        by_cases hi : i < divCeil frame.length (min (datagramLimit - HEADER) MAX_FRAME)
        · simp only [List.getElem?_range hi, Option.map_some]
          rfl
        · rw [List.getElem?_eq_none (by simpa using hi)]
          rfl
      · simp only
        omega

namespace Cut

variable (c : Cut)

theorem frame_pos : 0 < c.frame.length := List.length_pos_iff.mpr c.frame_ne

theorem lt_count_iff {i : Nat} : i < c.count ↔ i * c.stride < c.frame.length :=
  lt_divCeil_iff c.stride_pos

theorem length_body (index : Nat) :
    (c.body index).length = min c.stride (c.frame.length - index * c.stride) := by
  rw [body, length_slice]
  omega

theorem drop_part (index : Nat) : (c.part index).drop HEADER = c.body index := by
  rw [part, Header.encode, List.drop_append_of_le_length (by simp [HEADER, MAGIC]),
    List.drop_of_length_le (by simp [HEADER, MAGIC]), List.nil_append]

theorem length_part (index : Nat) : (c.part index).length = HEADER + (c.body index).length := by
  simp only [part, Header.encode, MAGIC, HEADER, List.length_append, length_toBE, List.length_cons,
    List.length_nil]

theorem read_part {index : Nat} (hindex : index < c.count) :
    Header.read (c.part index) = c.header index := by
  have hcount : c.count ≤ 64 := c.count_le
  have htotal : c.frame.length ≤ 65535 := c.frame_le
  have hstride : c.stride ≤ 65535 := c.stride_le
  have hid := c.id_lt
  have hbytes : c.part index = MAGIC ++ (toBE 8 c.id ++ (toBE 4 c.frame.length ++
      (toBE 2 c.stride ++ (toBE 2 index ++ (toBE 2 c.count ++ ([0, 0] ++ c.body index)))))) := by
    simp only [part, Header.encode, header, List.append_assoc]
  have hid' : slice (c.part index) 4 12 = toBE 8 c.id :=
    slice_middle hbytes rfl (by simp)
  rw [← List.append_assoc] at hbytes
  have htotal' : slice (c.part index) 12 16 = toBE 4 c.frame.length :=
    slice_middle hbytes (by simp [MAGIC]) (by simp)
  rw [← List.append_assoc] at hbytes
  have hstride' : slice (c.part index) 16 18 = toBE 2 c.stride :=
    slice_middle hbytes (by simp [MAGIC]) (by simp)
  rw [← List.append_assoc] at hbytes
  have hindex' : slice (c.part index) 18 20 = toBE 2 index :=
    slice_middle hbytes (by simp [MAGIC]) (by simp)
  rw [← List.append_assoc] at hbytes
  have hcount' : slice (c.part index) 20 22 = toBE 2 c.count :=
    slice_middle hbytes (by simp [MAGIC]) (by simp)
  rw [Header.read, hid', htotal', hstride', hindex', hcount', ofBE_toBE_of_lt (by omega),
    ofBE_toBE_of_lt (by omega), ofBE_toBE_of_lt (by omega), ofBE_toBE_of_lt (by omega),
    ofBE_toBE_of_lt (by omega)]
  rfl

theorem valid_header {index : Nat} (hindex : index < c.count) :
    (c.header index).Valid (c.body index).length where
  id_ne := c.id_ne
  total_pos := c.frame_pos
  total_le := c.frame_le
  stride_pos := c.stride_pos
  count_le := c.count_le
  index_lt := hindex
  count_eq := rfl
  size_eq := c.length_body index

/-- Every fragment parses back to the geometry of its frame. -/
theorem parse_part {index : Nat} (hindex : index < c.count) :
    Header.parse (c.part index) = .ok (c.header index) := by
  have hbody : 0 < (c.body index).length := by
    have := c.lt_count_iff.mp hindex
    have := c.stride_pos
    rw [length_body]
    omega
  have hmagic : slice (c.part index) 0 4 = MAGIC := by
    simp only [part, Header.encode, List.append_assoc]
    exact slice_middle (List.nil_append _).symm rfl rfl
  have hzero : slice (c.part index) 22 24 = [0, 0] := by
    rw [part, Header.encode, List.append_assoc]
    exact slice_middle rfl (by simp [MAGIC]) rfl
  have hsize : (c.part index).length - HEADER = (c.body index).length := by
    rw [length_part]
    omega
  unfold Header.parse
  rw [if_neg, hsize, c.read_part hindex, Header.invalid_eq_false.mpr (c.valid_header hindex),
    if_neg (by simp)]
  rw [not_or, not_or]
  refine ⟨?_, not_not.mpr hmagic, not_not.mpr hzero⟩
  rw [length_part]
  omega

theorem part_inj {i k : Nat} (hi : i < c.count) (hk : k < c.count) (h : c.part i = c.part k) :
    i = k := by
  have hheader := c.parse_part hi
  rw [h, c.parse_part hk] at hheader
  exact (congrArg Header.index (Except.ok.inj hheader)).symm

/-- A byte of a body is the byte of the frame at its place. -/
theorem getElem?_body {index j : Nat} (hlow : index * c.stride ≤ j)
    (hhigh : j < index * c.stride + (c.body index).length) :
    (c.body index)[j - index * c.stride]? = c.frame[j]? := by
  have hlength := c.length_body index
  rw [body, getElem?_slice, if_pos (by omega)]
  congr 1
  omega

end Cut

/-! ## Interleavings

Between the parts anything may happen that is not a fragment of the same frame, and that leaves the frame
time and room. `Holds` says which parts are in place.
-/

open Reassembler

/-- The clock reading an operation carries. -/
def Reassembler.Op.now? : Op → Option Nat
  | .push _ now => some now
  | .expire now => some now
  | _ => none

/-- What may happen between the parts of frame `id`: pushes of anything that is not a fragment with
that id, sweeps, and changes to the shared budgets. -/
def Compatible (id : Nat) (parts : List Bytes) : Op → Prop
  | .push bytes _ =>
    bytes ∈ parts ∨ ∀ header, Header.parse bytes = .ok header → header.id ≠ id
  | .clear => False
  | _ => True

/-- A run that delivers every part of a frame at least once, to a reassembler that does not know the
frame yet. -/
structure Interleaving (id total : Nat) (parts : List Bytes) (r : Reassembler) (ops : List Op) :
    Prop where
  absent : r.frames[id]? = none
  unretired : r.retired.contains id = false
  compatible : ∀ op ∈ ops, Compatible id parts op
  complete : ∀ part ∈ parts, ∃ now, .push part now ∈ ops
  /-- When the first part arrives the budgets admit the frame, and everything after it happens
  before the deadline that starts then. -/
  admitted : ∀ pre part start post, ops = pre ++ .push part start :: post → part ∈ parts →
    (∀ earlier ∈ parts, ∀ now, .push earlier now ∉ pre) →
    ((r.run pre).expire start).reserve total ≠ none ∧
      ∀ op ∈ post, ∀ now, op.now? = some now → now < start + LIFETIME
  /-- The retired horizon never passes the id. -/
  horizon : ∀ pre, pre <+: ops → (r.run pre).retired.highest < id + 1024

namespace Cut

variable (c : Cut)

/-- Part `i` has been pushed. -/
def Got (ops : List Op) (i : Nat) : Prop := ∃ now, .push (c.part i) now ∈ ops

/-- The parts in `got` are in place. -/
structure Holds (got : Nat → Prop) (frame : Partial) : Prop where
  length : frame.data.length = c.frame.length
  stride : frame.stride = c.stride
  count : frame.count = c.count
  seen : ∀ i, frame.seen.getLsbD i = true ↔ i < c.count ∧ got i
  data : ∀ j < c.frame.length, got (j / c.stride) → frame.data[j]? = c.frame[j]?

/-- Where a frame stands after the operations `ops`. -/
inductive Progress (ops : List Op) (r : Reassembler) : Prop
  | waiting : (∀ i < c.count, ¬ c.Got ops i) → r.frames[c.id]? = none →
      r.retired.contains c.id = false → Progress ops r
  | collecting {pre i start post frame} : ops = pre ++ .push (c.part i) start :: post →
      i < c.count → (∀ k < c.count, ¬ c.Got pre k) → (∃ k < c.count, ¬ c.Got ops k) →
      r.frames[c.id]? = some frame → r.retired.contains c.id = false →
      frame.deadline = start + LIFETIME → c.Holds (c.Got ops) frame → Progress ops r
  | done : (∀ i < c.count, c.Got ops i) → r.retired.contains c.id = true → Progress ops r

variable {c}

theorem fits_of_holds {got : Nat → Prop} {frame : Partial} (h : c.Holds got frame) (i : Nat) :
    fits frame (c.header i) = true := by
  simp [fits, header, h.length, h.stride, h.count]

theorem fill_holds {got : Nat → Prop} {frame : Partial} (h : c.Holds got frame) {i : Nat}
    (hi : i < c.count) : c.Holds (fun k => got k ∨ k = i) (fill frame (c.header i) (c.body i)) := by
  have hvalid := c.valid_header hi
  have hroom : i * c.stride + (c.body i).length ≤ frame.data.length := h.length ▸ hvalid.fits_total
  refine ⟨(length_overwrite hroom).trans h.length, h.stride, h.count, ?_, ?_⟩
  · intro k
    have hcount : c.count ≤ 64 := c.count_le
    show (frame.seen ||| 1#64 <<< i).getLsbD k = true ↔ _
    rw [BitVec.getLsbD_or, Bool.or_eq_true, h.seen]
    constructor
    · rintro (⟨hk, hgot⟩ | hbit)
      · exact ⟨hk, .inl hgot⟩
      · have hk : k < 64 := BitVec.lt_of_getLsbD hbit
        rw [Retired.getLsbD_one_shiftLeft hk, decide_eq_true_eq] at hbit
        exact ⟨hbit ▸ hi, .inr hbit⟩
    · rintro ⟨hk, hgot | rfl⟩
      · exact .inl ⟨hk, hgot⟩
      · rw [Retired.getLsbD_one_shiftLeft (by omega)]
        exact .inr (by simp)
  · intro j hj hgot
    show (overwrite frame.data (i * c.stride) (c.body i))[j]? = c.frame[j]?
    rw [getElem?_overwrite hroom]
    split
    · next hrange => exact c.getElem?_body hrange.1 hrange.2
    · next hrange =>
      rcases hgot with hgot | hgot
      · exact h.data j hj hgot
      · exact absurd ((hvalid.covers hj).mp hgot) hrange

theorem data_of_holds {got : Nat → Prop} {frame : Partial} (h : c.Holds got frame)
    (hall : ∀ i < c.count, got i) : frame.data = c.frame := by
  refine List.ext_getElem? fun j => ?_
  by_cases hj : j < c.frame.length
  · refine h.data j hj (hall _ ?_)
    rw [lt_count_iff]
    exact Nat.lt_of_le_of_lt (Nat.div_mul_le_self j c.stride) hj
  · rw [List.getElem?_eq_none (by rw [h.length]; omega), List.getElem?_eq_none (by omega)]

theorem slice_of_holds {got : Nat → Prop} {frame : Partial} (h : c.Holds got frame) {i : Nat}
    (hi : i < c.count) (hgot : got i) :
    slice frame.data (i * c.stride) (i * c.stride + (c.body i).length) = c.body i := by
  refine List.ext_getElem? fun j => ?_
  rw [getElem?_slice]
  split
  · next hj =>
    have htotal : i * c.stride + (c.body i).length ≤ c.frame.length := (c.valid_header hi).fits_total
    have hlt : i * c.stride + j < c.frame.length := by omega
    have hcover : (i * c.stride + j) / c.stride = i :=
      ((c.valid_header hi).covers hlt).mpr ⟨Nat.le_add_right _ _, hj⟩
    rw [h.data _ hlt (hcover.symm ▸ hgot), ← c.getElem?_body (Nat.le_add_right _ _) hj,
      Nat.add_sub_cancel_left]
  · next hj => rw [List.getElem?_eq_none (by omega)]

/-- **One part joins its frame.** It is a duplicate, or it is put in place, or it was the last one
and the frame is handed out. -/
theorem accept_part (r : Reassembler) {got : Nat → Prop} {frame : Partial} (h : c.Holds got frame)
    {i : Nat} (hi : i < c.count) :
    (got i ∧ r.accept (c.header i) (c.body i) frame = (.ok none, r)) ∨
      (¬ got i ∧ (∀ k < c.count, got k ∨ k = i) ∧
        (r.accept (c.header i) (c.body i) frame).1 = .ok (some c.frame) ∧
        (r.accept (c.header i) (c.body i) frame).2.retired.contains c.id = true) ∨
      (¬ got i ∧ (∃ k < c.count, ¬ (got k ∨ k = i)) ∧
        (r.accept (c.header i) (c.body i) frame).1 = .ok none ∧
        (r.accept (c.header i) (c.body i) frame).2.retired = r.retired ∧
        (r.accept (c.header i) (c.body i) frame).2.frames[c.id]? =
          some (fill frame (c.header i) (c.body i))) := by
  have hfill := fill_holds h hi
  have hvalid := c.valid_header hi
  have hcounted := @countOnes_eq_iff (fill frame (c.header i) (c.body i)).seen c.count c.count_le
    fun k hk => ((hfill.seen k).mp hk).1
  have hindex : (c.header i).index < 64 := Nat.lt_of_lt_of_le hi c.count_le
  have hseen : frame.seen.getLsbD (c.header i).index = true ↔ got i := by
    rw [h.seen]
    exact and_iff_right hi
  generalize hr : r.accept (c.header i) (c.body i) frame = result
  have hcases := hr ▸ accepted r frame hindex
  cases hcases with
  | conflict hbit hdiffers =>
      exact absurd (slice_of_holds h hi (hseen.mp hbit)) hdiffers
  | duplicate hbit _ => exact .inl ⟨hseen.mp hbit, rfl⟩
  | stored hbit hcount =>
      have hmissing : ¬ ∀ k < c.count, got k ∨ k = i := by
        intro hall
        refine hcount ?_
        rw [h.count]
        exact hcounted.mpr fun k hk => (hfill.seen k).mpr ⟨hk, hall k hk⟩
      push Not at hmissing
      refine .inr (.inr ⟨?_, ?_, rfl, rfl, ?_⟩)
      · rw [← hseen, hbit]
        simp
      · obtain ⟨k, hk, hne⟩ := hmissing
        exact ⟨k, hk, by tauto⟩
      · exact ExtTreeMap.getElem?_insert_self
  | completed hbit hcount =>
      rw [h.count, hcounted] at hcount
      have hall : ∀ k < c.count, got k ∨ k = i := fun k hk => ((hfill.seen k).mp (hcount k hk)).2
      refine .inr (.inl ⟨?_, hall, ?_, ?_⟩)
      · rw [← hseen, hbit]
        simp
      · rw [data_of_holds hfill hall]
      · rw [retire_retired]
        exact Retired.contains_insert_self _ _

theorem Holds.congr {got got' : Nat → Prop} {frame : Partial} (h : c.Holds got frame)
    (heq : ∀ k < c.count, got k ↔ got' k) : c.Holds got' frame where
  length := h.length
  stride := h.stride
  count := h.count
  seen := by
    intro i
    rw [h.seen]
    exact and_congr_right fun hi => heq i hi
  data := by
    intro j hj hgot
    refine h.data j hj ((heq _ ?_).mpr hgot)
    rw [lt_count_iff]
    exact Nat.lt_of_le_of_lt (Nat.div_mul_le_self j c.stride) hj

/-- An empty frame holds no part yet. -/
theorem fresh_holds {got : Nat → Prop} (i now : Nat) (hnone : ∀ k < c.count, ¬ got k) :
    c.Holds got (fresh (c.header i) now) where
  length := List.length_replicate
  stride := rfl
  count := rfl
  seen := by
    intro k
    constructor
    · intro h
      simp [fresh] at h
    · rintro ⟨hk, hgot⟩
      exact absurd hgot (hnone k hk)
  data := by
    intro j hj hgot
    refine absurd hgot (hnone _ ?_)
    rw [lt_count_iff]
    exact Nat.lt_of_le_of_lt (Nat.div_mul_le_self j c.stride) hj

theorem got_push {ops : List Op} {i k now : Nat} (hi : i < c.count) (hk : k < c.count) :
    c.Got (ops ++ [.push (c.part i) now]) k ↔ c.Got ops k ∨ k = i := by
  constructor
  · rintro ⟨t, ht⟩
    rcases List.mem_append.mp ht with hold | hnew
    · exact .inl ⟨t, hold⟩
    · rw [List.mem_singleton, Op.push.injEq] at hnew
      exact .inr (c.part_inj hk hi hnew.1)
  · rintro (⟨t, ht⟩ | rfl)
    · exact ⟨t, List.mem_append_left _ ht⟩
    · exact ⟨now, by simp⟩

theorem got_other {ops : List Op} {op : Op} {k : Nat} (hop : ∀ now, op ≠ .push (c.part k) now) :
    c.Got (ops ++ [op]) k ↔ c.Got ops k := by
  constructor
  · rintro ⟨t, ht⟩
    rcases List.mem_append.mp ht with hold | hnew
    · exact ⟨t, hold⟩
    · exact absurd (List.mem_singleton.mp hnew).symm (hop t)
  · rintro ⟨t, ht⟩
    exact ⟨t, List.mem_append_left _ ht⟩

/-! ## Steps of an interleaving

A step either leaves the frame alone or brings one of its parts; a part is a duplicate, a new piece, or the
last one missing.
-/

theorem highest_expire_le_push (r : Reassembler) (bytes : Bytes) (now : Nat) :
    (r.expire now).retired.highest ≤ (r.push bytes now).2.retired.highest := by
  rcases push_retired r bytes now with heq | ⟨header, -, heq⟩
  · rw [heq]
  · rw [heq, Retired.insert_highest]
    omega

theorem not_overdue {r : Reassembler} {id now : Nat} (hretired : r.retired.contains id = false)
    (hlive : ∀ frame, r.frames[id]? = some frame → now < frame.deadline) :
    id ∉ r.overdueIds now := by
  rw [mem_overdueIds]
  rintro ⟨frame, hframe, hlate | hcontains⟩
  · have := hlive frame hframe
    omega
  · rw [hretired] at hcontains
    cases hcontains

/-- An operation that is no part of frame `id`, in time and short of the horizon, leaves the frame
as it is. -/
theorem step_untouched {r : Reassembler} {op : Op} {id : Nat} {parts : List Bytes}
    (hcompatible : Compatible id parts op) (hother : ∀ part ∈ parts, ∀ now, op ≠ .push part now)
    (hretired : r.retired.contains id = false)
    (hlive : ∀ frame, r.frames[id]? = some frame → ∀ now, op.now? = some now → now < frame.deadline)
    (hhorizon : (r.step op).retired.highest < id + 1024) :
    (r.step op).frames[id]? = r.frames[id]? ∧ (r.step op).retired.contains id = false := by
  cases op with
  | push bytes now =>
      have hid : ∀ header, Header.parse bytes = .ok header → header.id ≠ id :=
        hcompatible.resolve_left fun hpart => hother bytes hpart now rfl
      have hkept := not_overdue hretired fun frame hframe => hlive frame hframe now rfl
      have hsweep := highest_expire_le_push r bytes now
      simp only [step] at hhorizon ⊢
      have hswept := expire_not_contains hretired hkept (by omega)
      refine ⟨by rw [push_frames hid, expire_frames, if_neg hkept], ?_⟩
      rcases push_retired r bytes now with heq | ⟨header, hparse, heq⟩
      · rw [heq, hswept]
      · have hhighest := Retired.insert_highest (r.expire now).retired header.id
        rw [← heq] at hhighest
        rw [heq, ← Bool.not_eq_true, Retired.contains_insert, hswept]
        rintro (hsame | hfalse | hbehind)
        · exact hid header hparse hsame.symm
        · cases hfalse
        · omega
  | expire now =>
      have hkept := not_overdue hretired fun frame hframe => hlive frame hframe now rfl
      exact ⟨by rw [step, expire_frames, if_neg hkept], expire_not_contains hretired hkept hhorizon⟩
  | clear => exact hcompatible.elim
  | others process mesh => exact ⟨rfl, hretired⟩

theorem Progress.other {ops : List Op} {r : Reassembler} (h : c.Progress ops r) {op : Op}
    (hcompatible : Compatible c.id c.parts op)
    (hother : ∀ part ∈ c.parts, ∀ now, op ≠ .push part now)
    (hlive : r.retired.contains c.id = false → ∀ frame, r.frames[c.id]? = some frame →
      ∀ now, op.now? = some now → now < frame.deadline)
    (hhorizon : (r.step op).retired.highest < c.id + 1024) :
    c.Progress (ops ++ [op]) (r.step op) := by
  have hgot : ∀ k < c.count, (c.Got (ops ++ [op]) k ↔ c.Got ops k) := fun k hk =>
    got_other fun now => hother _ (List.mem_map.mpr ⟨k, List.mem_range.mpr hk, rfl⟩) now
  cases h with
  | waiting hnone habsent hretired =>
      obtain ⟨hframes, hcontains⟩ :=
        step_untouched hcompatible hother hretired (hlive hretired) hhorizon
      exact .waiting (fun i hi => (hgot i hi).not.mpr (hnone i hi)) (hframes.trans habsent) hcontains
  | @collecting pre i start post frame hops hi hfirst hmissing hframe hretired hdeadline hholds =>
      obtain ⟨hframes, hcontains⟩ :=
        step_untouched hcompatible hother hretired (hlive hretired) hhorizon
      obtain ⟨k, hk, hmissing⟩ := hmissing
      have hops' : ops ++ [op] = pre ++ .push (c.part i) start :: (post ++ [op]) := by
        rw [hops, List.append_assoc, List.cons_append]
      exact .collecting hops' hi hfirst ⟨k, hk, (hgot k hk).not.mpr hmissing⟩
        (hframes.trans hframe) hcontains hdeadline (hholds.congr fun k hk => (hgot k hk).symm)
  | done hall hretired =>
      exact .done (fun i hi => (hgot i hi).mpr (hall i hi)) (step_contains hretired op)

variable (c) in
/-- The push that supplies the last missing part. -/
def Completes (ops : List Op) (i : Nat) : Prop :=
  ¬ c.Got ops i ∧ ∀ k < c.count, c.Got ops k ∨ k = i

/-- What a push of part `i` returns and leaves behind, given where the frame stands. -/
def PartOutcome (c : Cut) (ops : List Op) (r : Reassembler) (i now : Nat) : Prop :=
  (c.Completes ops i → (r.push (c.part i) now).1 = .ok (some c.frame)) ∧
    (¬ c.Completes ops i → (r.push (c.part i) now).1 = .ok none) ∧
    c.Progress (ops ++ [.push (c.part i) now]) (r.push (c.part i) now).2

/-- A part that meets its frame, whether the frame was there or has just been opened. -/
theorem partOutcome_of_accept {ops : List Op} {r ready : Reassembler} {i now : Nat} {frame : Partial}
    (hi : i < c.count) (hframe : ready.frames[c.id]? = some frame)
    (hholds : c.Holds (c.Got ops) frame) (hretired : ready.retired.contains c.id = false)
    (hpush : r.push (c.part i) now = ready.accept (c.header i) (c.body i) frame)
    {pre : List Op} {first start : Nat} {post : List Op}
    (hops : ops ++ [.push (c.part i) now] = pre ++ .push (c.part first) start :: post)
    (hfirst : first < c.count) (hbefore : ∀ k < c.count, ¬ c.Got pre k)
    (hdeadline : frame.deadline = start + LIFETIME)
    (hmissing : c.Got ops i → ∃ k < c.count, ¬ c.Got ops k) : c.PartOutcome ops r i now := by
  have hgot : ∀ k < c.count, (c.Got ops k ∨ k = i ↔ c.Got (ops ++ [.push (c.part i) now]) k) :=
    fun k hk => (got_push hi hk).symm
  rw [PartOutcome, hpush]
  rcases accept_part ready hholds hi with ⟨hdup, hresult⟩ | ⟨hnew, hall, hresult, hcontains⟩ |
    ⟨hnew, ⟨k, hk, hlack⟩, hresult, hsame, hstored⟩
  · rw [hresult]
    refine ⟨fun h => absurd hdup h.1, fun _ => rfl, ?_⟩
    obtain ⟨k, hk, hlack⟩ := hmissing hdup
    have hlack' : ¬ (c.Got ops k ∨ k = i) := by
      rintro (h | rfl)
      · exact hlack h
      · exact hlack hdup
    refine .collecting hops hfirst hbefore ⟨k, hk, (hgot k hk).not.mp hlack'⟩ hframe hretired
      hdeadline (hholds.congr fun k hk => ?_)
    rw [← hgot k hk]
    constructor
    · exact .inl
    · rintro (h | rfl)
      · exact h
      · exact hdup
  · exact ⟨fun _ => hresult, fun h => absurd ⟨hnew, hall⟩ h,
      .done (fun k hk => (hgot k hk).mp (hall k hk)) hcontains⟩
  · refine ⟨fun h => absurd (h.2 k hk) hlack, fun _ => hresult, ?_⟩
    exact .collecting hops hfirst hbefore ⟨k, hk, (hgot k hk).not.mp hlack⟩ hstored
      (hsame ▸ hretired) hdeadline ((fill_holds hholds hi).congr hgot)

theorem Progress.part {ops : List Op} {r : Reassembler} (h : c.Progress ops r) {i now : Nat}
    (hi : i < c.count)
    (hadmitted : (∀ k < c.count, ¬ c.Got ops k) → (r.expire now).reserve c.frame.length ≠ none)
    (hlive : r.retired.contains c.id = false → ∀ frame, r.frames[c.id]? = some frame →
      now < frame.deadline)
    (hhorizon : (r.push (c.part i) now).2.retired.highest < c.id + 1024) :
    c.PartOutcome ops r i now := by
  have hparse := c.parse_part hi
  have hsweep := highest_expire_le_push r (c.part i) now
  cases h with
  | waiting hnone habsent hretired =>
      have hkept := not_overdue hretired (hlive hretired)
      have hswept : (r.expire now).retired.contains c.id = false :=
        expire_not_contains hretired hkept (by omega)
      have hframes : (r.expire now).frames[c.id]? = none := by
        rw [expire_frames, if_neg hkept, habsent]
      obtain ⟨budgets, hbudgets⟩ := Option.ne_none_iff_exists'.mp (hadmitted hnone)
      have hpush : r.push (c.part i) now = ((r.expire now).opened (c.header i) now budgets).accept
          (c.header i) (c.body i) (fresh (c.header i) now) := by
        simp only [push, hparse, header, hswept, hframes, hbudgets, drop_part]
        rfl
      have hopened : ((r.expire now).opened (c.header i) now budgets).frames[c.id]? =
          some (fresh (c.header i) now) := ExtTreeMap.getElem?_insert_self
      have hlive' : ((r.expire now).opened (c.header i) now budgets).retired.contains c.id = false :=
        hswept
      exact partOutcome_of_accept hi hopened (fresh_holds i now hnone) hlive' hpush rfl hi hnone rfl
        (fun hgot => absurd hgot (hnone i hi))
  | @collecting pre first start post frame hops hfirst hbefore hmissing hframe hretired hdeadline
      hholds =>
      have hswept : (r.expire now).retired.contains c.id = false :=
        expire_not_contains hretired (not_overdue hretired (hlive hretired)) (by omega)
      have hframes : (r.expire now).frames[c.id]? = some frame :=
        expire_frames_eq_some.mpr ⟨hframe, hlive hretired frame hframe, hretired⟩
      have hpush : r.push (c.part i) now =
          (r.expire now).accept (c.header i) (c.body i) frame := by
        simp only [push, hparse, header, hswept, hframes, drop_part]
        have hfits := fits_of_holds hholds i
        simp only [header] at hfits
        rw [hfits]
        rfl
      have hops' : ops ++ [.push (c.part i) now] =
          pre ++ .push (c.part first) start :: (post ++ [.push (c.part i) now]) := by
        rw [hops, List.append_assoc, List.cons_append]
      exact partOutcome_of_accept hi hframes hholds hswept hpush hops' hfirst hbefore hdeadline
        fun _ => hmissing
  | done hall hretired =>
      have hpush : r.push (c.part i) now = (.ok none, r.expire now) :=
        push_of_contains hparse hretired
      rw [PartOutcome, hpush]
      refine ⟨fun h => absurd (hall i hi) h.1, fun _ => rfl, .done ?_ ?_⟩
      · exact fun k hk => (got_push hi hk).mpr (.inl (hall k hk))
      · exact (expire_contains r now c.id).mpr (.inl hretired)

/-! ## Whole runs

The parts are all delivered at least once, so there is a first moment at which none is missing. The push of
that moment hands out the frame, and by then the id is retired, so no later one does.
-/

theorem mem_parts {bytes : Bytes} : bytes ∈ c.parts ↔ ∃ i < c.count, c.part i = bytes := by
  simp [parts]

section Interleaved

variable {r : Reassembler} {ops : List Op} (h : Interleaving c.id c.frame.length c.parts r ops)

include h

/-- Whatever comes after the opening push comes before its deadline. -/
theorem Progress.live {pre rest : List Op} {op : Op} (hprogress : c.Progress pre (r.run pre))
    (hsplit : ops = pre ++ op :: rest) (hretired : (r.run pre).retired.contains c.id = false)
    (frame : Partial) (hframe : (r.run pre).frames[c.id]? = some frame) (now : Nat)
    (hnow : op.now? = some now) : now < frame.deadline := by
  cases hprogress with
  | waiting _ habsent _ =>
      rw [habsent] at hframe
      cases hframe
  | @collecting before i start post frame' hops hi hbefore _ hframe' _ hdeadline _ =>
      rw [hframe'] at hframe
      cases hframe
      have hstart : ops = before ++ .push (c.part i) start :: (post ++ op :: rest) := by
        rw [hsplit, hops, List.append_assoc, List.cons_append]
      rw [hdeadline]
      refine (h.admitted _ _ _ _ hstart (mem_parts.mpr ⟨i, hi, rfl⟩) ?_).2 op (by simp) now hnow
      intro earlier hearlier t ht
      obtain ⟨k, hk, rfl⟩ := mem_parts.mp hearlier
      exact hbefore k hk ⟨t, ht⟩
  | done _ hcontains =>
      rw [hretired] at hcontains
      cases hcontains

theorem Progress.outcome {pre rest : List Op} {i now : Nat}
    (hprogress : c.Progress pre (r.run pre)) (hi : i < c.count)
    (hsplit : ops = pre ++ .push (c.part i) now :: rest) : c.PartOutcome pre (r.run pre) i now := by
  have hhorizon := h.horizon (pre ++ [.push (c.part i) now]) ⟨rest, by rw [hsplit]; simp⟩
  rw [run, exec_concat, ← run, step] at hhorizon
  refine hprogress.part hi ?_ (fun hretired frame hframe =>
    hprogress.live h hsplit hretired frame hframe now rfl) hhorizon
  intro hnone
  refine (h.admitted _ _ _ _ hsplit (mem_parts.mpr ⟨i, hi, rfl⟩) ?_).1
  intro earlier hearlier t ht
  obtain ⟨k, hk, rfl⟩ := mem_parts.mp hearlier
  exact hnone k hk ⟨t, ht⟩

/-- **Where the frame stands after every part of an interleaving**, by induction on the operations. -/
theorem progress (pre : List Op) (hpre : pre <+: ops) : c.Progress pre (r.run pre) := by
  induction pre using List.reverseRecOn with
  | nil => exact .waiting (by simp [Got]) h.absent h.unretired
  | append_singleton pre op ih =>
      have hprogress := ih ((List.prefix_append pre [op]).trans hpre)
      have hrun : r.run (pre ++ [op]) = (r.run pre).step op := exec_concat _ _ _ _
      have hhorizon := h.horizon _ hpre
      obtain ⟨rest, hrest⟩ := hpre
      rw [List.append_assoc, List.singleton_append] at hrest
      rw [hrun] at hhorizon ⊢
      by_cases hpart : ∃ i < c.count, ∃ now, op = .push (c.part i) now
      · obtain ⟨i, hi, now, rfl⟩ := hpart
        exact (hprogress.outcome h hi hrest.symm).2.2
      · refine hprogress.other (h.compatible op (by rw [← hrest]; simp)) ?_
          (hprogress.live h hrest.symm) hhorizon
        rintro part hmem now rfl
        obtain ⟨i, hi, rfl⟩ := mem_parts.mp hmem
        exact hpart ⟨i, hi, now, rfl⟩

end Interleaved

/-- Some push of the run supplies the last missing part. -/
theorem exists_completes (ops : List Op) (hall : ∀ i < c.count, c.Got ops i) :
    ∃ pre i now post, i < c.count ∧ ops = pre ++ .push (c.part i) now :: post ∧
      c.Completes pre i := by
  induction ops using List.reverseRecOn with
  | nil =>
      obtain ⟨now, hnow⟩ := hall 0 (c.lt_count_iff.mpr (by simpa using c.frame_pos))
      cases hnow
  | append_singleton ops op ih =>
      by_cases hbefore : ∀ i < c.count, c.Got ops i
      · obtain ⟨pre, i, now, post, hi, hops, hcompletes⟩ := ih hbefore
        exact ⟨pre, i, now, post ++ [op], hi, by rw [hops]; simp, hcompletes⟩
      · push Not at hbefore
        obtain ⟨i, hi, hmissing⟩ := hbefore
        obtain ⟨now, hnow⟩ := hall i hi
        have hop : op = .push (c.part i) now := by
          rcases List.mem_append.mp hnow with hold | hnew
          · exact absurd ⟨now, hold⟩ hmissing
          · exact (List.mem_singleton.mp hnew).symm
        subst hop
        exact ⟨ops, i, now, [], hi, rfl, hmissing, fun k hk => (got_push hi hk).mp (hall k hk)⟩

/-- Only one does: before it a part is missing, after it none is. -/
theorem completes_unique {ops pre pre' post post' : List Op} {i i' now now' : Nat}
    (hi : i < c.count) (hi' : i' < c.count) (hops : ops = pre ++ .push (c.part i) now :: post)
    (hops' : ops = pre' ++ .push (c.part i') now' :: post') (h : c.Completes pre i)
    (h' : c.Completes pre' i') : pre'.length = pre.length := by
  have hshort : ∀ {pre pre' post post' : List Op} {i i' now now' : Nat}, i < c.count → i' < c.count →
      ops = pre ++ .push (c.part i) now :: post → ops = pre' ++ .push (c.part i') now' :: post' →
      c.Completes pre i → c.Completes pre' i' → ¬ pre.length < pre'.length := by
    intro pre pre' post post' i i' now now' hi hi' hops hops' h h' hlt
    have hpre : pre ++ [.push (c.part i) now] <+: pre' :=
      List.prefix_of_prefix_length_le ⟨post, by rw [hops]; simp⟩ ⟨_, hops'.symm⟩ (by simpa using hlt)
    have hgot := (@got_push c pre i i' now hi hi').mpr (h.2 i' hi')
    obtain ⟨t, ht⟩ := hgot
    exact h'.1 ⟨t, hpre.subset ht⟩
  have h₁ := hshort hi hi' hops hops' h h'
  have h₂ := hshort hi' hi hops' hops h' h
  omega

end Cut

/-- **QUIC ciphertext fragmentation round-trips under any reordering and duplication.** The parts fit
their datagrams, and in every interleaving exactly one push hands out the frame: the one that
supplies the last missing part. All other pushes of the parts return nothing. -/
theorem split_round_trip (id : UInt64) (frame : Bytes) (datagramLimit : Nat) (parts : List Bytes)
    (hsplit : split id frame datagramLimit = .ok parts) :
    (∀ part ∈ parts, part.length ≤ datagramLimit) ∧
      ∀ (r : Reassembler) (ops : List Op),
        Interleaving id.toNat frame.length parts r ops →
        ∃ pre last now post, ops = pre ++ .push last now :: post ∧ last ∈ parts ∧
          (∀ t, .push last t ∉ pre) ∧ (∀ part ∈ parts, part ≠ last → ∃ t, .push part t ∈ pre) ∧
          ((r.run pre).push last now).1 = .ok (some frame) ∧
          ∀ pre' part now' post', ops = pre' ++ .push part now' :: post' → part ∈ parts →
            pre'.length ≠ pre.length → ((r.run pre').push part now').1 = .ok none := by
  obtain ⟨c, hid, rfl, rfl, hlimit⟩ := split_eq_ok hsplit
  rw [← hid]
  constructor
  · intro part hpart
    obtain ⟨i, hi, rfl⟩ := Cut.mem_parts.mp hpart
    rw [c.length_part, c.length_body]
    omega
  · intro r ops h
    have hall : ∀ i < c.count, c.Got ops i := fun i hi =>
      h.complete _ (Cut.mem_parts.mpr ⟨i, hi, rfl⟩)
    obtain ⟨pre, i, now, post, hi, hops, hcompletes⟩ := Cut.exists_completes ops hall
    have houtcome : ∀ {pre post : List Op} {i now : Nat}, i < c.count →
        ops = pre ++ .push (c.part i) now :: post → c.PartOutcome pre (r.run pre) i now := by
      intro pre post i now hi hops
      exact (Cut.progress h pre ⟨_, hops.symm⟩).outcome h hi hops
    refine ⟨pre, c.part i, now, post, hops, Cut.mem_parts.mpr ⟨i, hi, rfl⟩, ?_, ?_,
      (houtcome hi hops).1 hcompletes, ?_⟩
    · exact fun t ht => hcompletes.1 ⟨t, ht⟩
    · intro part hpart hne
      obtain ⟨k, hk, rfl⟩ := Cut.mem_parts.mp hpart
      exact (hcompletes.2 k hk).resolve_right fun heq => hne (heq ▸ rfl)
    · intro pre' part now' post' hops' hpart hlength
      obtain ⟨k, hk, rfl⟩ := Cut.mem_parts.mp hpart
      refine (houtcome hk hops').2.1 fun hcompletes' => hlength ?_
      exact Cut.completes_unique hi hk hops hops' hcompletes hcompletes'

/-- Three bytes over a path that carries two of them at a time: the first part. -/
def firstPart : Bytes := Header.encode ⟨5, 3, 2, 0, 2⟩ [1, 2]

/-- The second part of the same frame. -/
def secondPart : Bytes := Header.encode ⟨5, 3, 2, 1, 2⟩ [3]

/-- The second part arrives first; the push of the first part hands out the frame. -/
theorem split_round_trip_reversed :
    ∃ pre last now post,
      [Op.push secondPart 0, Op.push firstPart 1] = pre ++ .push last now :: post ∧
        (((Reassembler.new ⟨100, 0⟩ ⟨100, 0⟩).run pre).push last now).1 = .ok (some [1, 2, 3]) := by
  have h : Interleaving 5 3 [firstPart, secondPart] (Reassembler.new ⟨100, 0⟩ ⟨100, 0⟩)
      [.push secondPart 0, .push firstPart 1] := by
    refine ⟨by decide +kernel, by decide +kernel, ?_, ?_, ?_, ?_⟩
    · simp [Compatible]
    · simp
    · intro pre part start post hops hpart hfirst
      match pre with
      | [] =>
          cases hops
          refine ⟨by decide +kernel, ?_⟩
          simp [Op.now?, LIFETIME]
      | op :: pre =>
          rw [List.cons_append, List.cons.injEq] at hops
          exact absurd (hops.1 ▸ List.mem_cons_self) (hfirst secondPart (by simp) 0)
    · intro pre hpre
      have hmem : pre ∈ [Op.push secondPart 0, Op.push firstPart 1].inits := (List.mem_inits _ _).mpr hpre
      simp only [List.inits, List.map_cons, List.map_nil, List.mem_cons, List.not_mem_nil,
        or_false] at hmem
      rcases hmem with rfl | rfl | rfl <;> decide +kernel
  obtain ⟨pre, last, now, post, hops, -, -, -, hresult, -⟩ :=
    (split_round_trip 5 [1, 2, 3] 26 [firstPart, secondPart] (by decide +kernel)).2 _ _ h
  exact ⟨pre, last, now, post, hops, hresult⟩

end Peerward.Carrier
