import Peerward.Carrier.RoundTrip

/-!
# At-most-once delivery without mixing

An id that has left the table is retired, and retirement is permanent, so no id is delivered twice.
What is delivered was collected from pushes since the frame was opened: `Collected` says that every
index marked as seen was supplied by one of them and that none of them disagrees with the frame.
-/

namespace Peerward.Carrier.Reassembler

open Std Peerward.Lib

/-! ## What a live frame was collected from

A frame is put together from bodies that arrive in any order, with duplicates. `Collected` ties every index
that counts as seen to a push that brought it, and says that no push since the opening disagreed.
-/

/-- The body of `header` stands in `data` at its place. -/
def Supplies (header : Header) (body data : Bytes) : Prop :=
  ∀ j, header.index * header.stride ≤ j → j < header.index * header.stride + body.length →
    data[j]? = body[j - header.index * header.stride]?

theorem slice_eq_iff_supplies {header : Header} {body data : Bytes} :
    slice data (header.index * header.stride) (header.index * header.stride + body.length) = body ↔
      Supplies header body data := by
  constructor
  · intro h j hlow hhigh
    conv_rhs => rw [← h, getElem?_slice, if_pos (by omega)]
    congr 1
    omega
  · intro h
    refine List.ext_getElem? fun j => ?_
    rw [getElem?_slice]
    split
    · next hj => rw [h _ (Nat.le_add_right _ _) hj, Nat.add_sub_cancel_left]
    · next hj => rw [List.getElem?_eq_none (by omega)]

/-- A fragment of frame `id` that agrees with the frame's geometry and contents. -/
structure Agrees (id : Nat) (frame : Partial) (header : Header) (body : Bytes) : Prop where
  id_eq : header.id = id
  total_eq : header.total = frame.data.length
  stride_eq : header.stride = frame.stride
  count_eq : header.count = frame.count
  supplies : Supplies header body frame.data

/-- What the operations since its opening say about a frame. -/
structure Collected (window : List Op) (id : Nat) (frame : Partial) : Prop where
  count_le : frame.count ≤ 64
  /-- Every index that counts as seen was supplied. -/
  supplied : ∀ i, frame.seen.getLsbD i = true → ∃ bytes now header, .push bytes now ∈ window ∧
    Header.parse bytes = .ok header ∧ header.index = i ∧
    Agrees id frame header (bytes.drop HEADER)
  /-- No fragment of the frame disagrees with it. -/
  agrees : ∀ bytes now header, .push bytes now ∈ window → Header.parse bytes = .ok header →
    header.id = id →
    Agrees id frame header (bytes.drop HEADER) ∧ frame.seen.getLsbD header.index = true

/-- The frame was opened during `ops` and collected since. -/
structure History (start : Reassembler) (ops : List Op) (id : Nat) (frame : Partial) : Prop where
  opened : ∃ before first now header since, ops = before ++ .push first now :: since ∧
    Header.parse first = .ok header ∧ header.id = id ∧ (start.run before).frames[id]? = none ∧
    Collected (.push first now :: since) id frame

/-- An operation that is no fragment of the frame does not change what it was collected from. -/
theorem Collected.other {window : List Op} {id : Nat} {frame : Partial}
    (h : Collected window id frame) {op : Op}
    (hop : ∀ bytes now header, op = .push bytes now → Header.parse bytes = .ok header →
      header.id ≠ id) : Collected (window ++ [op]) id frame where
  count_le := h.count_le
  supplied := by
    intro i hi
    obtain ⟨bytes, now, header, hmem, hrest⟩ := h.supplied i hi
    exact ⟨bytes, now, header, List.mem_append_left _ hmem, hrest⟩
  agrees := by
    intro bytes now header hmem hparse hid
    rcases List.mem_append.mp hmem with hold | hnew
    · exact h.agrees bytes now header hold hparse hid
    · exact absurd hid (hop bytes now header (List.mem_singleton.mp hnew).symm hparse)

/-- A duplicate that agrees adds nothing. -/
theorem Collected.duplicate {window : List Op} {id : Nat} {frame : Partial}
    (h : Collected window id frame) {bytes : Bytes} {now : Nat} {header : Header}
    (hparse : Header.parse bytes = .ok header)
    (hagrees : Agrees id frame header (bytes.drop HEADER))
    (hseen : frame.seen.getLsbD header.index = true) :
    Collected (window ++ [.push bytes now]) id frame where
  count_le := h.count_le
  supplied := by
    intro i hi
    obtain ⟨bytes', now', header', hmem, hrest⟩ := h.supplied i hi
    exact ⟨bytes', now', header', List.mem_append_left _ hmem, hrest⟩
  agrees := by
    intro bytes' now' header' hmem hparse' hid
    rcases List.mem_append.mp hmem with hold | hnew
    · exact h.agrees bytes' now' header' hold hparse' hid
    · rw [List.mem_singleton, Op.push.injEq] at hnew
      obtain ⟨rfl, rfl⟩ := hnew
      rw [hparse] at hparse'
      cases hparse'
      exact ⟨hagrees, hseen⟩

/-- The bodies of two indices do not overlap. -/
theorem Agrees.fill {id : Nat} {frame : Partial} {header : Header} {body : Bytes}
    (h : Agrees id frame header body) (hvalid : header.Valid body.length) {new : Header}
    {newBody : Bytes} (hnew : new.Valid newBody.length) (hfits : fits frame new = true)
    (hne : header.index ≠ new.index) : Agrees id (fill frame new newBody) header body := by
  simp only [fits, Bool.and_eq_true, decide_eq_true_eq] at hfits
  obtain ⟨⟨htotal, hstride⟩, -⟩ := hfits
  have hroom : new.index * new.stride + newBody.length ≤ frame.data.length :=
    htotal ▸ hnew.fits_total
  refine ⟨h.id_eq, h.total_eq.trans (length_overwrite hroom).symm, h.stride_eq, h.count_eq, ?_⟩
  intro j hlow hhigh
  show (overwrite frame.data (new.index * new.stride) newBody)[j]? = _
  have hj : j < header.total := Nat.lt_of_lt_of_le hhigh hvalid.fits_total
  have hquotient := (hvalid.covers hj).mpr ⟨hlow, hhigh⟩
  rw [getElem?_overwrite hroom, if_neg, h.supplies j hlow hhigh]
  intro hrange
  have hj' : j < new.total := by rw [← htotal, ← h.total_eq]; exact hj
  have hquotient' := (hnew.covers hj').mpr hrange
  rw [← hstride, ← h.stride_eq, hquotient] at hquotient'
  exact hne hquotient'

theorem agrees_fill_self {frame : Partial} {header : Header} {body : Bytes}
    (hvalid : header.Valid body.length) (hfits : fits frame header = true) :
    Agrees header.id (fill frame header body) header body := by
  simp only [fits, Bool.and_eq_true, decide_eq_true_eq] at hfits
  obtain ⟨⟨htotal, hstride⟩, hcount⟩ := hfits
  have hroom : header.index * header.stride + body.length ≤ frame.data.length :=
    htotal ▸ hvalid.fits_total
  refine ⟨rfl, ((length_overwrite hroom).trans htotal).symm, hstride.symm, hcount.symm, ?_⟩
  intro j hlow hhigh
  show (overwrite frame.data (header.index * header.stride) body)[j]? = _
  rw [getElem?_overwrite hroom, if_pos ⟨hlow, hhigh⟩]

/-- A new body put in place. -/
theorem Collected.stored {window : List Op} {frame : Partial} {bytes : Bytes} {now : Nat}
    {header : Header} (h : Collected window header.id frame)
    (hparse : Header.parse bytes = .ok header) (hfits : fits frame header = true)
    (hseen : frame.seen.getLsbD header.index = false) :
    Collected (window ++ [.push bytes now]) header.id
      (fill frame header (bytes.drop HEADER)) where
  count_le := h.count_le
  supplied := by
    intro i hi
    have hvalid := (Header.parse_eq_ok hparse).2
    have hi' : (frame.seen ||| 1#64 <<< header.index).getLsbD i = true := hi
    rw [BitVec.getLsbD_or, Bool.or_eq_true] at hi'
    rcases hi' with hold | hnew
    · obtain ⟨bytes', now', header', hmem, hparse', rfl, hagrees⟩ := h.supplied i hold
      refine ⟨bytes', now', header', List.mem_append_left _ hmem, hparse', rfl,
        hagrees.fill (Header.parse_eq_ok hparse').2 hvalid hfits ?_⟩
      intro heq
      rw [heq, hseen] at hold
      cases hold
    · have hlt : i < 64 := BitVec.lt_of_getLsbD hnew
      rw [Retired.getLsbD_one_shiftLeft hlt, decide_eq_true_eq] at hnew
      exact ⟨bytes, now, header, by simp, hparse, hnew.symm, agrees_fill_self hvalid hfits⟩
  agrees := by
    intro bytes' now' header' hmem hparse' hid
    have hvalid := (Header.parse_eq_ok hparse).2
    rcases List.mem_append.mp hmem with hold | hnew
    · obtain ⟨hagrees, hbit⟩ := h.agrees bytes' now' header' hold hparse' hid
      have hne : header'.index ≠ header.index := by
        intro heq
        rw [heq, hseen] at hbit
        cases hbit
      refine ⟨hagrees.fill (Header.parse_eq_ok hparse').2 hvalid hfits hne, ?_⟩
      show (frame.seen ||| 1#64 <<< header.index).getLsbD header'.index = true
      rw [BitVec.getLsbD_or, hbit, Bool.true_or]
    · rw [List.mem_singleton, Op.push.injEq] at hnew
      obtain ⟨rfl, rfl⟩ := hnew
      rw [hparse] at hparse'
      cases hparse'
      refine ⟨agrees_fill_self hvalid hfits, ?_⟩
      show (frame.seen ||| 1#64 <<< header.index).getLsbD header.index = true
      rw [BitVec.getLsbD_or, Retired.getLsbD_one_shiftLeft (index_lt_of_parse hparse)]
      simp

theorem collected_fresh {header : Header} {now : Nat} (hcount : header.count ≤ 64) :
    Collected [] header.id (fresh header now) where
  count_le := hcount
  supplied := by
    intro i hi
    simp [fresh] at hi
  agrees := by
    intro bytes t header' hmem
    cases hmem

/-! ## Every live frame has a history

A frame is opened by a push and lives until it is retired, so the pushes since then are the ones it can be
made of. The induction is on the run; sweeps and pushes of other ids keep the history as it is.
-/

/-- The frames that can still be delivered have one. -/
def Remembered (start : Reassembler) (ops : List Op) (r : Reassembler) : Prop :=
  ∀ id frame, r.frames[id]? = some frame → r.retired.contains id = false →
    History start ops id frame

variable {start r : Reassembler} {ops : List Op}

theorem History.concat {id : Nat} {frame frame' : Partial} (h : History start ops id frame)
    {op : Op} (hstep : ∀ window, Collected window id frame → Collected (window ++ [op]) id frame') :
    History start (ops ++ [op]) id frame' := by
  obtain ⟨before, first, now, header, since, hops, hparse, hid, habsent, hcollected⟩ := h.opened
  refine ⟨before, first, now, header, since ++ [op], ?_, hparse, hid, habsent, hstep _ hcollected⟩
  rw [hops, List.append_assoc, List.cons_append]

/-- A frame absent after a sweep that did not retire it was absent before. -/
theorem absent_of_expire {now k : Nat} (h : (r.expire now).frames[k]? = none)
    (hretired : (r.expire now).retired.contains k = false) : r.frames[k]? = none := by
  rw [expire_frames] at h
  split at h
  · next hmem =>
    rw [← Bool.not_eq_true, expire_contains] at hretired
    exact absurd (.inr ⟨k, hmem, .inl rfl⟩) hretired
  · exact h

/-- A sweep keeps the history of what it leaves. -/
theorem Remembered.expire (h : Remembered start ops r) {now id : Nat} {frame : Partial}
    (hframe : (r.expire now).frames[id]? = some frame) : History start ops id frame := by
  obtain ⟨hbefore, -, hretired⟩ := expire_frames_eq_some.mp hframe
  exact h id frame hbefore hretired

/-- The frame a push meets has a history that reaches up to the push, or is new. -/
theorem accept_history {header : Header} {bytes : Bytes} {now : Nat} {frame : Partial}
    {ready : Reassembler} (hparse : Header.parse bytes = .ok header)
    (hready : ready.frames[header.id]? = some frame) (hfits : fits frame header = true)
    (hhistory : ∀ frame', (∀ window, Collected window header.id frame →
        Collected (window ++ [.push bytes now]) header.id frame') →
      History start (ops ++ [.push bytes now]) header.id frame') :
    (∀ frame', (ready.accept header (bytes.drop HEADER) frame).2.frames[header.id]? = some frame' →
        History start (ops ++ [.push bytes now]) header.id frame') ∧
      ∀ data, (ready.accept header (bytes.drop HEADER) frame).1 = .ok (some data) →
        ∃ frame', data = frame'.data ∧ countOnes frame'.seen = frame'.count ∧
          History start (ops ++ [.push bytes now]) header.id frame' := by
  generalize hr : ready.accept header (bytes.drop HEADER) frame = result
  have hcases := hr ▸ accepted ready frame (index_lt_of_parse hparse)
  cases hcases with
  | conflict _ _ =>
      refine ⟨fun frame' h => ?_, fun data h => by cases h⟩
      rw [retire_frames, if_pos rfl] at h
      cases h
  | duplicate hseen hsame =>
      refine ⟨fun frame' h => ?_, fun data h => by cases h⟩
      rw [hready] at h
      cases h
      simp only [fits, Bool.and_eq_true, decide_eq_true_eq] at hfits
      obtain ⟨⟨htotal, hstride⟩, hcount⟩ := hfits
      exact hhistory frame fun window hcollected => hcollected.duplicate hparse
        ⟨rfl, htotal.symm, hstride.symm, hcount.symm, slice_eq_iff_supplies.mp hsame⟩ hseen
  | stored hseen hcount =>
      refine ⟨fun frame' h => ?_, fun data h => by cases h⟩
      rw [ExtTreeMap.getElem?_insert_self] at h
      cases h
      exact hhistory _ fun window hcollected => hcollected.stored hparse hfits hseen
  | completed hseen hcount =>
      refine ⟨fun frame' h => ?_, fun data h => ?_⟩
      · rw [retire_frames, if_pos rfl] at h
        cases h
      · cases h
        exact ⟨_, rfl, hcount,
          hhistory _ fun window hcollected => hcollected.stored hparse hfits hseen⟩

theorem fits_fresh (header : Header) (now : Nat) : fits (fresh header now) header = true := by
  simp [fits, fresh]

/-- **What a push delivers, and every frame it leaves, has a history.** -/
theorem push_history (hr : r = start.run ops) (h : Remembered start ops r) (bytes : Bytes)
    (now : Nat) :
    Remembered start (ops ++ [.push bytes now]) (r.push bytes now).2 ∧
      ∀ data, (r.push bytes now).1 = .ok (some data) →
        ∃ header frame, Header.parse bytes = .ok header ∧ data = frame.data ∧
          countOnes frame.seen = frame.count ∧
          History start (ops ++ [.push bytes now]) header.id frame := by
  -- frames of other ids only see the sweep
  have hother : ∀ id frame, (r.push bytes now).2.frames[id]? = some frame →
      (∀ header, Header.parse bytes = .ok header → header.id ≠ id) →
      History start (ops ++ [.push bytes now]) id frame := by
    intro id frame hframe hid
    rw [push_frames hid] at hframe
    refine (h.expire hframe).concat fun window hcollected => hcollected.other ?_
    rintro bytes' now' header heq hparse
    cases heq
    exact hid header hparse
  -- so it is enough to look at the id of the fragment
  suffices hown : (∀ header frame, Header.parse bytes = .ok header →
      (r.push bytes now).2.frames[header.id]? = some frame →
      (r.push bytes now).2.retired.contains header.id = false →
      History start (ops ++ [.push bytes now]) header.id frame) ∧
      ∀ data, (r.push bytes now).1 = .ok (some data) →
        ∃ header frame, Header.parse bytes = .ok header ∧ data = frame.data ∧
          countOnes frame.seen = frame.count ∧
          History start (ops ++ [.push bytes now]) header.id frame by
    refine ⟨fun id frame hframe hretired => ?_, hown.2⟩
    by_cases hid : ∃ header, Header.parse bytes = .ok header ∧ header.id = id
    · obtain ⟨header, hparse, rfl⟩ := hid
      exact hown.1 header frame hparse hframe hretired
    · exact hother id frame hframe fun header hparse heq => hid ⟨header, hparse, heq⟩
  generalize hresult : r.push bytes now = result
  have hcases := hresult ▸ pushed r bytes now
  cases hcases with
  | malformed hparse =>
      refine ⟨fun header frame hparse' => ?_, fun data hdata => by cases hdata⟩
      rw [hparse] at hparse'
      cases hparse'
  | retired hparse hretired =>
      refine ⟨fun header frame hparse' _ hlive => ?_, fun data hdata => by cases hdata⟩
      rw [hparse] at hparse'
      cases hparse'
      rw [hretired] at hlive
      cases hlive
  | conflict hparse _ _ _ =>
      refine ⟨fun header frame hparse' hframe => ?_, fun data hdata => by cases hdata⟩
      rw [hparse] at hparse'
      cases hparse'
      rw [retire_frames, if_pos rfl] at hframe
      cases hframe
  | refused hparse _ _ _ =>
      refine ⟨fun header frame hparse' _ hlive => ?_, fun data hdata => by cases hdata⟩
      rw [hparse] at hparse'
      cases hparse'
      rw [Retired.contains_insert_self] at hlive
      cases hlive
  | @joined header frame hparse hretired hframe hfits =>
      obtain ⟨hleft, hdelivered⟩ := accept_history hparse hframe hfits
        fun frame' hstep => (h.expire hframe).concat hstep
      refine ⟨fun header' frame' hparse' hframe' _ => ?_, fun data hdata => ?_⟩
      · rw [hparse] at hparse'
        cases hparse'
        exact hleft frame' hframe'
      · obtain ⟨frame', hrest⟩ := hdelivered data hdata
        exact ⟨header, frame', hparse, hrest⟩
  | @opened header budgets hparse hretired hframe hreserve =>
      have hready : ((r.expire now).opened header now budgets).frames[header.id]? =
          some (fresh header now) := ExtTreeMap.getElem?_insert_self
      have habsent : (start.run ops).frames[header.id]? = none :=
        hr ▸ absent_of_expire hframe hretired
      have hcount : header.count ≤ 64 := (Header.parse_eq_ok hparse).2.count_le
      obtain ⟨hleft, hdelivered⟩ := accept_history hparse hready (fits_fresh header now)
        fun frame' hstep => ⟨ops, bytes, now, header, [], rfl, hparse, rfl, habsent,
          hstep [] (collected_fresh hcount)⟩
      refine ⟨fun header' frame' hparse' hframe' _ => ?_, fun data hdata => ?_⟩
      · rw [hparse] at hparse'
        cases hparse'
        exact hleft frame' hframe'
      · obtain ⟨frame', hrest⟩ := hdelivered data hdata
        exact ⟨header, frame', hparse, hrest⟩

/-- By induction on the run. -/
theorem remembered (process mesh : Budget) (ops : List Op) :
    Remembered (new process mesh) ops ((new process mesh).run ops) := by
  have hall := @exec_history _ _ step (new process mesh)
    (fun ops r => r = (new process mesh).run ops ∧ Remembered (new process mesh) ops r) ?_ ?_ ops
  · exact hall.2
  · refine ⟨rfl, fun id frame hframe => ?_⟩
    simp [new] at hframe
  · rintro ops op ⟨hr, ih⟩
    refine ⟨(exec_concat _ _ _ _).symm, ?_⟩
    have hpassed : ∀ id frame, History (new process mesh) ops id frame →
        (∀ bytes now, op ≠ .push bytes now) →
        History (new process mesh) (ops ++ [op]) id frame := by
      intro id frame hhistory hop
      refine hhistory.concat fun window hcollected => hcollected.other ?_
      rintro bytes now header heq
      exact absurd heq (hop bytes now)
    cases op with
    | push bytes now => exact (push_history hr ih bytes now).1
    | expire now =>
        exact fun id frame hframe _ => hpassed id frame (ih.expire hframe) (by simp)
    | clear =>
        intro id frame hframe
        simp [step, clear] at hframe
    | others p m =>
        exact fun id frame hframe hretired => hpassed id frame (ih id frame hframe hretired) (by simp)

/-! ## Ids that are finished

Whatever ends a frame retires its id in the same step, and a retired id stays retired. A push of it gets as
far as the sweep and then returns nothing.
-/

/-- The operation, performed in state `r`, ends frame `id`: the frame expires, a fragment conflicts
with it, its budgets refuse it, or it is delivered. -/
def Finishes (r : Reassembler) (id : Nat) : Op → Prop
  | .push bytes now => id ∈ r.overdueIds now ∨
      ∃ header, Header.parse bytes = .ok header ∧ header.id = id ∧
        ((∃ frame e, (r.expire now).frames[id]? = some frame ∧ (r.push bytes now).1 = .error e) ∨
          ((r.expire now).retired.contains id = false ∧ (r.expire now).frames[id]? = none ∧
            (r.expire now).reserve header.total = none) ∨
          ∃ data, (r.push bytes now).1 = .ok (some data))
  | .expire now => id ∈ r.overdueIds now
  | _ => False

theorem push_contains_of_expire {bytes : Bytes} {now id : Nat}
    (h : (r.expire now).retired.contains id = true) :
    (r.push bytes now).2.retired.contains id = true := by
  rcases push_retired r bytes now with heq | ⟨header, -, heq⟩
  · rw [heq]
    exact h
  · rw [heq]
    exact Retired.contains_insert_of_contains h _

/-- A push that fails on its frame or delivers it retires the id. -/
theorem push_contains_of_result {bytes : Bytes} {now : Nat} {header : Header}
    (hparse : Header.parse bytes = .ok header) (h : (r.push bytes now).1 ≠ .ok none) :
    (r.push bytes now).2.retired.contains header.id = true := by
  have haccept : ∀ (ready : Reassembler) (frame : Partial),
      (ready.accept header (bytes.drop HEADER) frame).1 ≠ .ok none →
      (ready.accept header (bytes.drop HEADER) frame).2.retired.contains header.id = true := by
    intro ready frame hne
    generalize hr : ready.accept header (bytes.drop HEADER) frame = result at hne
    have hcases := hr ▸ accepted ready frame (index_lt_of_parse hparse)
    cases hcases with
    | conflict _ _ =>
        rw [retire_retired]
        exact Retired.contains_insert_self _ _
    | duplicate _ _ => exact absurd rfl hne
    | stored _ _ => exact absurd rfl hne
    | completed _ _ =>
        rw [retire_retired]
        exact Retired.contains_insert_self _ _
  generalize hr : r.push bytes now = result at h
  have hcases := hr ▸ pushed r bytes now
  cases hcases with
  | malformed hparse' =>
      rw [hparse] at hparse'
      cases hparse'
  | retired _ _ => exact absurd rfl h
  | conflict hparse' _ _ _ =>
      rw [hparse] at hparse'
      cases hparse'
      rw [retire_retired]
      exact Retired.contains_insert_self _ _
  | refused _ _ _ _ => exact absurd rfl h
  | joined hparse' _ _ _ =>
      rw [hparse] at hparse'
      cases hparse'
      exact haccept _ _ h
  | opened hparse' _ _ _ =>
      rw [hparse] at hparse'
      cases hparse'
      exact haccept _ _ h

/-- **Every way a frame ends retires its id.** -/
theorem step_contains_of_finishes {id : Nat} {op : Op} (h : Finishes r id op) :
    (r.step op).retired.contains id = true := by
  cases op with
  | push bytes now =>
      rcases h with hoverdue | ⟨header, hparse, rfl, ⟨frame, e, -, herror⟩ | ⟨hlive, habsent, hreserve⟩ |
        ⟨data, hdata⟩⟩
      · exact push_contains_of_expire ((expire_contains r now id).mpr (.inr ⟨id, hoverdue, .inl rfl⟩))
      · exact push_contains_of_result hparse (by simp [herror])
      · simp only [step, push, hparse, hlive, habsent, hreserve, Bool.false_eq_true, if_false]
        exact Retired.contains_insert_self _ _
      · exact push_contains_of_result hparse (by simp [hdata])
  | expire now => exact (expire_contains r now id).mpr (.inr ⟨id, h, .inl rfl⟩)
  | clear => exact h.elim
  | others process mesh => exact h.elim

/-- A push of an id that is finished does what a sweep does, and nothing else. -/
theorem push_finished (start : Reassembler) (pre : List Op) (op : Op) (mid : List Op) {id : Nat}
    (h : Finishes (start.run pre) id op) {bytes : Bytes} {header : Header}
    (hparse : Header.parse bytes = .ok header) (hid : header.id = id) (now : Nat) :
    (start.run (pre ++ op :: mid)).push bytes now =
      (.ok none, (start.run (pre ++ op :: mid)).expire now) := by
  refine push_of_contains hparse ?_
  have hrun : start.run (pre ++ op :: mid) = ((start.run pre).step op).run mid := exec_append _ _ _ _
  rw [hrun, hid]
  exact run_contains (step_contains_of_finishes h) mid

/-- `data` was put together from the pushes since its frame was opened, and from nothing else: each
index from one of them, and all of them agree. -/
structure Unmixed (start : Reassembler) (ops : List Op) (header : Header) (data : Bytes) : Prop where
  length : data.length = header.total
  opened : ∃ before first now since, ops = before ++ .push first now :: since ∧
    (∃ h, Header.parse first = .ok h ∧ h.id = header.id) ∧
    (start.run before).frames[header.id]? = none ∧
    (∀ i < header.count, ∃ bytes t, .push bytes t ∈ Op.push first now :: since ∧
      Header.parse bytes = .ok { header with index := i } ∧
      slice data (i * header.stride) (i * header.stride + (bytes.drop HEADER).length) =
        bytes.drop HEADER) ∧
    ∀ bytes t h, .push bytes t ∈ Op.push first now :: since → Header.parse bytes = .ok h →
      h.id = header.id → h = { header with index := h.index } ∧
        slice data (h.index * header.stride) (h.index * header.stride + (bytes.drop HEADER).length) =
          bytes.drop HEADER

theorem Agrees.header_eq {id : Nat} {frame : Partial} {header other : Header} {body body' : Bytes}
    (h : Agrees id frame header body) (h' : Agrees id frame other body') :
    other = { header with index := other.index } := by
  have hid := h.id_eq.trans h'.id_eq.symm
  have htotal := h.total_eq.trans h'.total_eq.symm
  have hstride := h.stride_eq.trans h'.stride_eq.symm
  have hcount := h.count_eq.trans h'.count_eq.symm
  cases header
  cases other
  simp_all

theorem unmixed_of_push (process mesh : Budget) (ops : List Op) {bytes : Bytes} {now : Nat}
    {data : Bytes} (h : (((new process mesh).run ops).push bytes now).1 = .ok (some data)) :
    ∃ header, Header.parse bytes = .ok header ∧
      Unmixed (new process mesh) (ops ++ [.push bytes now]) header data := by
  obtain ⟨header, frame, hparse, rfl, hcount, hhistory⟩ :=
    (push_history rfl (remembered process mesh ops) bytes now).2 data h
  obtain ⟨before, first, start, h₀, since, hops, hfirst, hid, habsent, hcollected⟩ := hhistory.opened
  have hlast : Op.push bytes now ∈ Op.push first start :: since := by
    have hsuffix : (ops ++ [Op.push bytes now]).getLast? =
        (before ++ Op.push first start :: since).getLast? := congrArg _ hops
    rw [List.getLast?_concat, List.getLast?_append_of_ne_nil _ (by simp)] at hsuffix
    exact List.mem_of_getLast? hsuffix.symm
  obtain ⟨hown, -⟩ := hcollected.agrees bytes now header hlast hparse rfl
  have hall : ∀ i < frame.count, frame.seen.getLsbD i = true := by
    refine (countOnes_eq_iff hcollected.count_le ?_).mp hcount
    intro i hi
    obtain ⟨bytes', t, h', hmem, hparse', rfl, hagrees⟩ := hcollected.supplied i hi
    exact hagrees.count_eq ▸ (Header.parse_eq_ok hparse').2.index_lt
  refine ⟨header, hparse, hown.total_eq.symm, before, first, start, since, hops,
    ⟨h₀, hfirst, hid⟩, habsent, ?_, ?_⟩
  · intro i hi
    obtain ⟨bytes', t, h', hmem, hparse', rfl, hagrees⟩ :=
      hcollected.supplied i (hall i (hown.count_eq ▸ hi))
    have heq := hown.header_eq hagrees
    refine ⟨bytes', t, hmem, heq ▸ hparse', ?_⟩
    have hslice := slice_eq_iff_supplies.mpr hagrees.supplies
    rwa [hagrees.stride_eq, ← hown.stride_eq] at hslice
  · intro bytes' t h' hmem hparse' hid'
    obtain ⟨hagrees, -⟩ := hcollected.agrees bytes' t h' hmem hparse' hid'
    refine ⟨hown.header_eq hagrees, ?_⟩
    have hslice := slice_eq_iff_supplies.mpr hagrees.supplies
    rwa [hagrees.stride_eq, ← hown.stride_eq] at hslice

/-- **QUIC reassembly delivers each frame id at most once and never mixes frames.** In every run no
two pushes deliver the same id, what is delivered is unmixed, and a push of an id that has expired,
conflicted, been refused or been delivered changes nothing that a sweep at that time would not. -/
theorem delivers_once_unmixed (process mesh : Budget) :
    (∀ (pre : List Op) (bytes : Bytes) (now : Nat) (mid : List Op) (bytes' : Bytes) (now' : Nat)
        (header header' : Header) (data data' : Bytes),
        Header.parse bytes = .ok header → Header.parse bytes' = .ok header' →
        (((new process mesh).run pre).push bytes now).1 = .ok (some data) →
        (((new process mesh).run (pre ++ .push bytes now :: mid)).push bytes' now').1 =
          .ok (some data') →
        header'.id ≠ header.id) ∧
      (∀ (ops : List Op) (bytes : Bytes) (now : Nat) (data : Bytes),
        (((new process mesh).run ops).push bytes now).1 = .ok (some data) →
        ∃ header, Header.parse bytes = .ok header ∧
          Unmixed (new process mesh) (ops ++ [.push bytes now]) header data) ∧
      ∀ (pre : List Op) (op : Op) (mid : List Op) (id : Nat) (bytes : Bytes) (now : Nat)
        (header : Header), Finishes ((new process mesh).run pre) id op →
        Header.parse bytes = .ok header → header.id = id →
        ((new process mesh).run (pre ++ op :: mid)).push bytes now =
          (.ok none, ((new process mesh).run (pre ++ op :: mid)).expire now) := by
  refine ⟨?_, fun ops bytes now data h => unmixed_of_push process mesh ops h, ?_⟩
  · intro pre bytes now mid bytes' now' header header' data data' hparse hparse' hdata hdata' hid
    have hfinishes : Finishes ((new process mesh).run pre) header.id (.push bytes now) :=
      .inr ⟨header, hparse, rfl, .inr (.inr ⟨data, hdata⟩)⟩
    rw [push_finished _ pre _ mid hfinishes hparse' hid now'] at hdata'
    cases hdata'
  · intro pre op mid id bytes now header hfinishes hparse hid
    exact push_finished _ pre op mid hfinishes hparse hid now

/-- A frame of one fragment. -/
def onlyPart : Bytes := Header.encode ⟨7, 1, 2, 0, 1⟩ [9]

/-- Two parts, the second one first: the frame is put together from both, and a replay returns nothing. -/
theorem split_delivered_once :
    let start := new ⟨100, 0⟩ ⟨100, 0⟩
    ((start.run [.push secondPart 0]).push firstPart 1).1 = .ok (some [1, 2, 3]) ∧
      (∃ header, Header.parse firstPart = .ok header ∧
        Unmixed start ([.push secondPart 0] ++ [.push firstPart 1]) header [1, 2, 3]) ∧
      ((start.run ([.push secondPart 0] ++ .push firstPart 1 :: [])).push secondPart 2).1 = .ok none := by
  intro start
  have hdelivered : ((start.run [.push secondPart 0]).push firstPart 1).1 = .ok (some [1, 2, 3]) := by
    decide +kernel
  have hfirst : Header.parse firstPart = .ok ⟨5, 3, 2, 0, 2⟩ := by decide +kernel
  have hsecond : Header.parse secondPart = .ok ⟨5, 3, 2, 1, 2⟩ := by decide +kernel
  obtain ⟨-, hunmixed, hreplay⟩ := delivers_once_unmixed ⟨100, 0⟩ ⟨100, 0⟩
  refine ⟨hdelivered, hunmixed _ _ _ _ hdelivered, congrArg Prod.fst (hreplay [.push secondPart 0]
    (.push firstPart 1) [] 5 secondPart 2 _ ?_ hsecond rfl)⟩
  exact .inr ⟨_, hfirst, rfl, .inr (.inr ⟨[1, 2, 3], hdelivered⟩)⟩

/-- A replay is not inert: it sweeps first. Frame 7 is delivered while frame 5 is incomplete; the
replay of frame 7 two seconds later drops frame 5 from the table. -/
theorem replay_sweeps_other_frames :
    ¬ ∀ (pre : List Op) (op : Op) (mid : List Op) (id : Nat) (bytes : Bytes) (now : Nat)
        (header : Header), Finishes ((new ⟨100, 0⟩ ⟨100, 0⟩).run pre) id op →
        Header.parse bytes = .ok header → header.id = id →
        (((new ⟨100, 0⟩ ⟨100, 0⟩).run (pre ++ op :: mid)).push bytes now).2.frames =
          ((new ⟨100, 0⟩ ⟨100, 0⟩).run (pre ++ op :: mid)).frames := by
  intro h
  have hparse : Header.parse onlyPart = .ok ⟨7, 1, 2, 0, 1⟩ := by decide +kernel
  have hsame := h [.push firstPart 0] (.push onlyPart 0) [] 7 onlyPart LIFETIME ⟨7, 1, 2, 0, 1⟩
    (.inr ⟨_, hparse, rfl, .inr (.inr ⟨[9], by decide +kernel⟩)⟩) hparse rfl
  have hsize := congrArg ExtTreeMap.size hsame
  revert hsize
  decide +kernel

end Peerward.Carrier.Reassembler
