import Peerward.Carrier.Fragments

/-!
# What one reassembler operation can do

Two lookups decide everything a fragment can meet: its frame in the table and whether its id is
retired. The lemmas here say how every operation changes the two, and `Pushed` lists the ways a push
can go.
-/

namespace Peerward.Carrier

open Std Peerward.Lib

/-! ## Headers -/

/-- Everything `Header::parse` checks of a header whose body has `size` bytes. -/
structure Header.Valid (header : Header) (size : Nat) : Prop where
  id_ne : header.id ≠ 0
  total_pos : 0 < header.total
  total_le : header.total ≤ MAX_FRAME
  stride_pos : 0 < header.stride
  count_le : header.count ≤ MAX_FRAGMENTS
  index_lt : header.index < header.count
  count_eq : divCeil header.total header.stride = header.count
  size_eq : size = min header.stride (header.total - header.index * header.stride)

theorem Header.invalid_eq_false {header : Header} {size : Nat} :
    header.invalid size = false ↔ header.Valid size := by
  constructor
  · intro h
    simp only [Header.invalid, Bool.or_eq_false_iff, decide_eq_false_iff_not, not_not] at h
    obtain ⟨⟨⟨⟨⟨⟨⟨⟨hid, htotal⟩, htotal'⟩, hstride⟩, hcount⟩, hcount'⟩, hindex⟩, hceil⟩, hsize⟩ := h
    exact ⟨hid, by omega, by omega, by omega, by omega, by omega, hceil, hsize⟩
  · rintro ⟨hid, htotal, htotal', hstride, hcount', hindex, hceil, hsize⟩
    simp only [Header.invalid, Bool.or_eq_false_iff, decide_eq_false_iff_not, not_not]
    exact ⟨⟨⟨⟨⟨⟨⟨⟨hid, by omega⟩, by omega⟩, by omega⟩, by omega⟩, by omega⟩, by omega⟩, hceil⟩, hsize⟩

theorem Header.parse_eq_ok {bytes : Bytes} {header : Header} (h : Header.parse bytes = .ok header) :
    header = Header.read bytes ∧ header.Valid (bytes.drop HEADER).length := by
  unfold Header.parse at h
  split at h
  · cases h
  · split at h
    · cases h
    · next hvalid =>
      cases h
      rw [Bool.not_eq_true, Header.invalid_eq_false] at hvalid
      rw [List.length_drop]
      exact ⟨rfl, hvalid⟩

/-- A body lies inside its frame. -/
theorem Header.Valid.fits_total {header : Header} {size : Nat} (h : header.Valid size) :
    header.index * header.stride + size ≤ header.total := by
  have hlt := (lt_divCeil_iff h.stride_pos).mp (h.count_eq ▸ h.index_lt)
  have hsize := h.size_eq
  omega

/-- The positions a body covers are those with its index as their quotient. -/
theorem Header.Valid.covers {header : Header} {size : Nat} (h : header.Valid size) {j : Nat}
    (hj : j < header.total) :
    j / header.stride = header.index ↔
      header.index * header.stride ≤ j ∧ j < header.index * header.stride + size := by
  have hsize := h.size_eq
  rw [Nat.div_eq_iff h.stride_pos]
  have hpos := h.stride_pos
  omega

namespace Reassembler

/-! ## Removal and retirement -/

@[simp] theorem remove_frames (r : Reassembler) (id k : Nat) :
    (r.remove id).frames[k]? = if id = k then none else r.frames[k]? := by
  unfold remove
  split
  · next hnone =>
    split
    · next heq => rw [← heq, hnone]
    · rfl
  · simp [ExtTreeMap.getElem?_erase]

@[simp] theorem remove_retired (r : Reassembler) (id : Nat) : (r.remove id).retired = r.retired := by
  unfold remove
  split <;> rfl

@[simp] theorem retire_frames (r : Reassembler) (id k : Nat) :
    (r.retire id).frames[k]? = if id = k then none else r.frames[k]? := remove_frames r id k

@[simp] theorem retire_retired (r : Reassembler) (id : Nat) :
    (r.retire id).retired = r.retired.insert id := by
  rw [retire, remove_retired]

/-! ## Expiry

The sweep retires the overdue ids in some order. None of the order is left in what it retires, and the
horizon can only move up to the largest of them.
-/

theorem foldl_retire_frames (ids : List Nat) (r : Reassembler) (k : Nat) :
    (ids.foldl retire r).frames[k]? = if k ∈ ids then none else r.frames[k]? := by
  induction ids generalizing r with
  | nil => simp
  | cons id ids ih =>
      rw [List.foldl_cons, ih, retire_frames]
      by_cases hmem : k ∈ ids
      · simp [hmem]
      · by_cases heq : id = k
        · simp [heq]
        · simp [hmem, heq, Ne.symm heq]

theorem foldl_retire_retired (ids : List Nat) (r : Reassembler) :
    (ids.foldl retire r).retired = ids.foldl Retired.insert r.retired := by
  induction ids generalizing r with
  | nil => rfl
  | cons id ids ih => rw [List.foldl_cons, ih, retire_retired, List.foldl_cons]

/-- What a series of insertions retires. -/
theorem contains_foldl_insert (ids : List Nat) (retired : Retired) (q : Nat) :
    (ids.foldl Retired.insert retired).contains q = true ↔
      retired.contains q = true ∨ ∃ id ∈ ids, q = id ∨ q + 1024 ≤ id := by
  induction ids generalizing retired with
  | nil => simp
  | cons id ids ih =>
      rw [List.foldl_cons, ih, Retired.contains_insert, List.exists_mem_cons_iff]
      constructor
      · rintro ((heq | hold | hbehind) | hlater)
        · exact .inr (.inl (.inl heq))
        · exact .inl hold
        · exact .inr (.inl (.inr hbehind))
        · exact .inr (.inr hlater)
      · rintro (hold | (heq | hbehind) | hlater)
        · exact .inl (.inr (.inl hold))
        · exact .inl (.inl heq)
        · exact .inl (.inr (.inr hbehind))
        · exact .inr hlater

theorem highest_foldl_insert (ids : List Nat) (retired : Retired) :
    retired.highest ≤ (ids.foldl Retired.insert retired).highest ∧
      ∀ id ∈ ids, id ≤ (ids.foldl Retired.insert retired).highest := by
  induction ids generalizing retired with
  | nil => simp
  | cons id ids ih =>
      obtain ⟨hle, hids⟩ := ih (retired.insert id)
      rw [Retired.insert_highest] at hle
      rw [List.foldl_cons]
      refine ⟨by omega, fun other hother => ?_⟩
      rcases List.mem_cons.mp hother with rfl | hother
      · omega
      · exact hids other hother

/-- The ids that `expire` drops. -/
def overdueIds (r : Reassembler) (now : Nat) : List Nat :=
  (r.frames.toList.filter (overdue r.retired now)).map Prod.fst

theorem mem_overdueIds {r : Reassembler} {now k : Nat} :
    k ∈ r.overdueIds now ↔ ∃ frame, r.frames[k]? = some frame ∧
      (frame.deadline ≤ now ∨ r.retired.contains k = true) := by
  simp only [overdueIds, List.mem_map, List.mem_filter, overdue, Bool.or_eq_true, decide_eq_true_eq]
  constructor
  · rintro ⟨⟨k, frame⟩, ⟨hmem, hdue⟩, rfl⟩
    exact ⟨frame, ExtTreeMap.mem_toList_iff_getElem?_eq_some.mp hmem, hdue⟩
  · rintro ⟨frame, hframe, hdue⟩
    exact ⟨(k, frame), ⟨ExtTreeMap.mem_toList_iff_getElem?_eq_some.mpr hframe, hdue⟩, rfl⟩

theorem expire_frames (r : Reassembler) (now k : Nat) :
    (r.expire now).frames[k]? = if k ∈ r.overdueIds now then none else r.frames[k]? :=
  foldl_retire_frames _ r k

theorem expire_contains (r : Reassembler) (now q : Nat) :
    (r.expire now).retired.contains q = true ↔
      r.retired.contains q = true ∨ ∃ id ∈ r.overdueIds now, q = id ∨ q + 1024 ≤ id := by
  rw [← contains_foldl_insert, ← foldl_retire_retired]
  rfl

theorem expire_highest (r : Reassembler) (now : Nat) :
    r.retired.highest ≤ (r.expire now).retired.highest ∧
      ∀ id ∈ r.overdueIds now, id ≤ (r.expire now).retired.highest := by
  have h := highest_foldl_insert (r.overdueIds now) r.retired
  rw [← foldl_retire_retired] at h
  exact h

/-- A frame that survives the sweep was there before and is neither late nor retired. -/
theorem expire_frames_eq_some {r : Reassembler} {now k : Nat} {frame : Partial} :
    (r.expire now).frames[k]? = some frame ↔
      r.frames[k]? = some frame ∧ now < frame.deadline ∧ r.retired.contains k = false := by
  rw [expire_frames]
  constructor
  · intro h
    split at h
    · cases h
    · next hmem =>
      rw [mem_overdueIds] at hmem
      refine ⟨h, ?_, ?_⟩
      · by_contra hlate
        exact hmem ⟨frame, h, .inl (by omega)⟩
      · by_contra hretired
        exact hmem ⟨frame, h, .inr (by simpa using hretired)⟩
  · rintro ⟨hframe, hdeadline, hretired⟩
    rw [if_neg, hframe]
    rw [mem_overdueIds]
    rintro ⟨other, hother, hdue⟩
    rw [hframe] at hother
    cases hother
    rcases hdue with hdue | hdue
    · omega
    · rw [hretired] at hdue
      cases hdue

/-- An id stays live through a sweep that does not drop it and keeps the horizon below it. -/
theorem expire_not_contains {r : Reassembler} {now q : Nat} (h : r.retired.contains q = false)
    (hkept : q ∉ r.overdueIds now) (hhorizon : (r.expire now).retired.highest < q + 1024) :
    (r.expire now).retired.contains q = false := by
  rw [← Bool.not_eq_true, expire_contains, h]
  rintro (hfalse | ⟨id, hid, rfl | hold⟩)
  · cases hfalse
  · exact hkept hid
  · have := (expire_highest r now).2 id hid
    omega

/-! ## Pushes

`Pushed` is the case analysis of `push`, made once: what it returns, and which frame and which id it
touched. The other modules take it apart instead of unfolding the function.
-/

/-- The ways a push can go. -/
inductive Pushed (r : Reassembler) (bytes : Bytes) (now : Nat) :
    Except FragmentError (Option Bytes) × Reassembler → Prop
  | malformed {e} : Header.parse bytes = .error e → Pushed r bytes now (.error e, r.expire now)
  | retired {header} : Header.parse bytes = .ok header →
      (r.expire now).retired.contains header.id = true →
      Pushed r bytes now (.ok none, r.expire now)
  | conflict {header frame} : Header.parse bytes = .ok header →
      (r.expire now).retired.contains header.id = false →
      (r.expire now).frames[header.id]? = some frame → fits frame header = false →
      Pushed r bytes now (.error .conflictingGeometry, (r.expire now).retire header.id)
  | refused {header} : Header.parse bytes = .ok header →
      (r.expire now).retired.contains header.id = false →
      (r.expire now).frames[header.id]? = none → (r.expire now).reserve header.total = none →
      Pushed r bytes now (.ok none,
        { r.expire now with retired := (r.expire now).retired.insert header.id })
  | joined {header frame} : Header.parse bytes = .ok header →
      (r.expire now).retired.contains header.id = false →
      (r.expire now).frames[header.id]? = some frame → fits frame header = true →
      Pushed r bytes now ((r.expire now).accept header (bytes.drop HEADER) frame)
  | opened {header budgets} : Header.parse bytes = .ok header →
      (r.expire now).retired.contains header.id = false →
      (r.expire now).frames[header.id]? = none →
      (r.expire now).reserve header.total = some budgets →
      Pushed r bytes now (((r.expire now).opened header now budgets).accept header
        (bytes.drop HEADER) (fresh header now))

theorem pushed (r : Reassembler) (bytes : Bytes) (now : Nat) :
    Pushed r bytes now (r.push bytes now) := by
  unfold push
  simp only
  split
  · next hparse => exact .malformed hparse
  · next header hparse =>
    split
    · next hretired => exact .retired hparse hretired
    · next hretired =>
      rw [Bool.not_eq_true] at hretired
      split
      · next frame hframe =>
        split
        · next hfits => exact .joined hparse hretired hframe hfits
        · next hfits => exact .conflict hparse hretired hframe (by simpa using hfits)
      · next hframe =>
        split
        · next hreserve => exact .refused hparse hretired hframe hreserve
        · next budgets hreserve => exact .opened hparse hretired hframe hreserve

/-- The frame `accept` stores. -/
def fill (frame : Partial) (header : Header) (body : Bytes) : Partial :=
  { frame with
    data := overwrite frame.data (header.index * header.stride) body
    seen := frame.seen ||| 1#64 <<< header.index }

/-- The ways an acceptance can go. -/
inductive Accepted (r : Reassembler) (header : Header) (body : Bytes) (frame : Partial) :
    Except FragmentError (Option Bytes) × Reassembler → Prop
  | conflict : frame.seen.getLsbD header.index = true →
      slice frame.data (header.index * header.stride)
        (header.index * header.stride + body.length) ≠ body →
      Accepted r header body frame (.error .conflictingDuplicate, r.retire header.id)
  | duplicate : frame.seen.getLsbD header.index = true →
      slice frame.data (header.index * header.stride)
        (header.index * header.stride + body.length) = body →
      Accepted r header body frame (.ok none, r)
  | stored : frame.seen.getLsbD header.index = false →
      countOnes (fill frame header body).seen ≠ frame.count →
      Accepted r header body frame
        (.ok none, { r with frames := r.frames.insert header.id (fill frame header body) })
  | completed : frame.seen.getLsbD header.index = false →
      countOnes (fill frame header body).seen = frame.count →
      Accepted r header body frame
        (.ok (some (fill frame header body).data), retire
          { r with frames := r.frames.insert header.id (fill frame header body) } header.id)

theorem accepted (r : Reassembler) {header : Header} {body : Bytes} (frame : Partial)
    (hindex : header.index < 64) : Accepted r header body frame (r.accept header body frame) := by
  have hbit := Retired.and_one_shiftLeft_ne_zero frame.seen hindex
  unfold accept
  simp only
  split
  · next hseen =>
    have hseen' := hbit.mp hseen
    split
    · next hdiffers => exact .conflict hseen' hdiffers
    · next hsame => exact .duplicate hseen' (not_not.mp hsame)
  · next hseen =>
    have hseen' : frame.seen.getLsbD header.index = false := by
      rw [← Bool.not_eq_true, ← hbit]
      exact hseen
    split
    · next hcount => exact .stored hseen' hcount
    · next hcount => exact .completed hseen' (not_not.mp hcount)

theorem fill_frames (r : Reassembler) (header : Header) (body : Bytes) (frame : Partial) {k : Nat}
    (hk : header.id ≠ k) :
    ({ r with frames := r.frames.insert header.id (fill frame header body) } :
      Reassembler).frames[k]? = r.frames[k]? := by
  simp [ExtTreeMap.getElem?_insert, hk]

theorem accept_frames (r : Reassembler) {header : Header} {body : Bytes} (frame : Partial)
    (hindex : header.index < 64) {k : Nat} (hk : header.id ≠ k) :
    (r.accept header body frame).2.frames[k]? = r.frames[k]? := by
  generalize hr : r.accept header body frame = result
  have hcases := hr ▸ accepted r frame hindex
  cases hcases with
  | conflict _ _ => rw [retire_frames, if_neg hk]
  | duplicate _ _ => rfl
  | stored _ _ => exact fill_frames r header body frame hk
  | completed _ _ => rw [retire_frames, if_neg hk, fill_frames r header body frame hk]

theorem accept_retired (r : Reassembler) {header : Header} {body : Bytes} (frame : Partial)
    (hindex : header.index < 64) :
    (r.accept header body frame).2.retired = r.retired ∨
      (r.accept header body frame).2.retired = r.retired.insert header.id := by
  generalize hr : r.accept header body frame = result
  have hcases := hr ▸ accepted r frame hindex
  cases hcases with
  | conflict _ _ => exact .inr (retire_retired r _)
  | duplicate _ _ => exact .inl rfl
  | stored _ _ => exact .inl rfl
  | completed _ _ => exact .inr (retire_retired _ _)

theorem index_lt_of_parse {bytes : Bytes} {header : Header} (h : Header.parse bytes = .ok header) :
    header.index < 64 := by
  obtain ⟨-, hvalid⟩ := Header.parse_eq_ok h
  exact Nat.lt_of_lt_of_le hvalid.index_lt hvalid.count_le

/-- Beyond the sweep, a push touches no frame but its own. -/
theorem push_frames {r : Reassembler} {bytes : Bytes} {now k : Nat}
    (h : ∀ header, Header.parse bytes = .ok header → header.id ≠ k) :
    (r.push bytes now).2.frames[k]? = (r.expire now).frames[k]? := by
  generalize hr : r.push bytes now = result
  have hcases := hr ▸ pushed r bytes now
  cases hcases with
  | malformed _ => rfl
  | retired _ _ => rfl
  | conflict hparse _ _ _ => rw [retire_frames, if_neg (h _ hparse)]
  | refused _ _ _ _ => rfl
  | joined hparse _ _ _ => exact accept_frames _ _ (index_lt_of_parse hparse) (h _ hparse)
  | opened hparse _ _ _ =>
      rw [accept_frames _ _ (index_lt_of_parse hparse) (h _ hparse), opened]
      simp [ExtTreeMap.getElem?_insert, h _ hparse]

/-- Beyond the sweep, a push retires no id but its own. -/
theorem push_retired (r : Reassembler) (bytes : Bytes) (now : Nat) :
    (r.push bytes now).2.retired = (r.expire now).retired ∨
      ∃ header, Header.parse bytes = .ok header ∧
        (r.push bytes now).2.retired = (r.expire now).retired.insert header.id := by
  generalize hr : r.push bytes now = result
  have hcases := hr ▸ pushed r bytes now
  cases hcases with
  | malformed _ => exact .inl rfl
  | retired _ _ => exact .inl rfl
  | conflict hparse _ _ _ => exact .inr ⟨_, hparse, retire_retired _ _⟩
  | refused hparse _ _ _ => exact .inr ⟨_, hparse, rfl⟩
  | joined hparse _ _ _ =>
      exact (accept_retired _ _ (index_lt_of_parse hparse)).imp_right fun h => ⟨_, hparse, h⟩
  | opened hparse _ _ _ =>
      exact (accept_retired _ _ (index_lt_of_parse hparse)).imp_right fun h => ⟨_, hparse, h⟩

/-- **Retirement is permanent.** -/
theorem step_contains {r : Reassembler} {q : Nat} (h : r.retired.contains q = true) (op : Op) :
    (r.step op).retired.contains q = true := by
  cases op with
  | push bytes now =>
      have hswept : (r.expire now).retired.contains q = true :=
        (expire_contains r now q).mpr (.inl h)
      rcases push_retired r bytes now with heq | ⟨header, -, heq⟩
      · rw [step, heq]
        exact hswept
      · rw [step, heq]
        exact Retired.contains_insert_of_contains hswept _
  | expire now => exact (expire_contains r now q).mpr (.inl h)
  | clear => exact h
  | others process mesh => exact h

theorem run_contains {r : Reassembler} {q : Nat} (h : r.retired.contains q = true)
    (ops : List Op) : (r.run ops).retired.contains q = true :=
  exec_invariant (I := fun r : Reassembler => r.retired.contains q = true) h (fun _ op h => step_contains h op) ops

/-- A push of a retired id does nothing but the sweep. -/
theorem push_of_contains {r : Reassembler} {bytes : Bytes} {now : Nat} {header : Header}
    (hparse : Header.parse bytes = .ok header) (h : r.retired.contains header.id = true) :
    r.push bytes now = (.ok none, r.expire now) := by
  have hswept : (r.expire now).retired.contains header.id = true :=
    (expire_contains r now header.id).mpr (.inl h)
  simp only [push, hparse, hswept, if_true]

end Reassembler

end Peerward.Carrier
