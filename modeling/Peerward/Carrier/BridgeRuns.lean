import Peerward.Carrier.BridgeSteps

/-!
# Control records cross the bridges once and in order

What an end takes from its application and from the stream keeps the agreement, so it holds of every run.
The result is `delivers_of_run`: a flush that is ready means that every control record before it is in the
other application's pipe.
-/

namespace Peerward.Carrier

open Peerward.Lib Peerward.Wire Peerward.Relay
open Peerward.Types (RelayId)

variable {decode : EnvelopeDecoder} {control : ControlEnvelope}
  {taken passed queued : List ControlEnvelope} {offset : Nat} {a a' b b' : Bridge}

/-! ## Taking a record from the application

Reading the prefix or the rest of a record does not change what was taken; only a whole record does, and
it is entered and numbered in the same step.
-/

theorem carried_of_frame {frame : Bytes} (h : decodeLocal decode frame = .ok (.control control))
    (hkind : isControl decode control = true ∨ isData decode control = true) :
    frame = localFrame control ∧ Carried decode control := by
  have hframe := (encodeLocal_eq_ok.mp (decodeLocal_eq_ok.mp h).1).2.2
  exact ⟨hframe, hframe ▸ h, hkind⟩

theorem Carried.all_append (h : ∀ other ∈ taken, Carried decode other) (hcontrol : Carried decode control) :
    ∀ other ∈ taken ++ [control], Carried decode other := by
  intro other hother
  rcases List.mem_append.mp hother with hother | hother
  · exact h other hother
  · exact List.mem_singleton.mp hother ▸ hcontrol

/-- The frame has become a record. -/
theorem Sending.input_enter (h : Sending decode b taken) (hrun : b.progress.ended = false)
    (hframe : b.frame = localFrame control) :
    b.input.received = pipeBytes (taken ++ [control]) ++ [] := by
  obtain ⟨rest, hinput, hrest⟩ := h.input
  rw [hinput, hrest hrun, hframe, pipeBytes_append, pipeBytes_cons, pipeBytes_nil, List.append_nil,
    List.append_nil]

theorem Sending.written_enter (h : Sending decode b taken) (hframe : b.frame = localFrame control) :
    b.written + b.frame.length = (pipeBytes (taken ++ [control])).length := by
  rw [h.written, hframe, pipeBytes_append, List.length_append, pipeBytes_cons, pipeBytes_nil,
    List.append_nil]

theorem Sending.enter_data (h : Sending decode b taken) (hrun : b.progress.ended = false)
    (hframe : b.frame = localFrame control) (hcontrol : Carried decode control)
    (hdata : isData decode control = true) :
    Sending decode (Bridge.enter { b with datagrams := b.datagrams ++ [control] } none)
      (taken ++ [control]) where
  carried := Carried.all_append h.carried hcontrol
  input := ⟨[], h.input_enter hrun hframe, fun _ => rfl⟩
  written := h.written_enter hframe
  counted := h.counted
  records := by
    rw [List.filter_append, List.filter_cons_of_neg (by rw [not_isControl_of_isData hdata]; nofun),
      List.filter_nil, List.append_nil]
    exact h.records
  sent := by
    rw [countControls_append, countControls_data (not_isControl_of_isData hdata)]
    exact h.sent
  bounded := h.bounded
  acknowledged := h.acknowledged
  datagrams := by
    show b.datagrams ++ [control] = _
    rw [List.filter_append, List.filter_cons_of_pos hdata, h.datagrams]
    rfl
  waiting := by
    have hwaits := h.waiting.enter control
    rw [← h.written, ← hframe, awaited, if_neg (by rw [not_isControl_of_isData hdata]; nofun)] at hwaits
    exact hwaits.settle
  heartbeats := h.heartbeats

theorem Sending.enter_control (h : Sending decode b taken) (hrun : b.progress.ended = false)
    (hframe : b.frame = localFrame control) (hcontrol : Carried decode control)
    (hkind : isControl decode control = true) (hsmall : b.link.sentControl + 1 < 2 ^ 64) :
    Sending decode
      (Bridge.enter
        { b with
          link := { b.link with sentControl := b.link.sentControl + 1 }
          streamed := b.streamed ++ [.record (b.link.sentControl + 1) control] }
        (some (b.link.sentControl + 1)))
      (taken ++ [control]) where
  carried := Carried.all_append h.carried hcontrol
  input := ⟨[], h.input_enter hrun hframe, fun _ => rfl⟩
  written := h.written_enter hframe
  counted := h.counted
  records := by
    show (b.streamed ++ [_]).filterMap _ = _
    rw [List.filterMap_append, h.records, List.filter_append, List.filter_cons_of_pos hkind, h.sent,
      List.zipIdx_append, Nat.add_comm 1]
    rfl
  sent := by
    show b.link.sentControl + 1 = _
    rw [countControls_append, countControls_control hkind, h.sent]
  bounded := hsmall
  acknowledged := Nat.le_succ_of_le h.acknowledged
  datagrams := by
    rw [List.filter_append, List.filter_cons_of_neg (by rw [not_isData_of_isControl hkind]; nofun),
      List.filter_nil, List.append_nil]
    exact h.datagrams
  waiting := by
    have hwaits := h.waiting.enter control
    have hnew : (some (b.link.sentControl + 1)).filter (b.link.acknowledgedControl < ·) =
        some (b.link.sentControl + 1) :=
      Option.filter_some_pos (decide_eq_true (Nat.lt_succ_of_le h.acknowledged))
    rw [← h.written, ← hframe, awaited, if_pos hkind, ← h.sent, hnew] at hwaits
    exact hwaits.settle
  heartbeats := by
    intro sequence response hmem
    rcases List.mem_append.mp hmem with hmem | hmem
    · exact h.heartbeats sequence response hmem
    · cases List.mem_singleton.mp hmem

/-- More bytes of the next record. -/
theorem Sending.read (h : Sending decode b taken) (hrun : b.progress.ended = false) (size : Nat) :
    Sending decode { b with input := b.input.take size, frame := b.frame ++ b.input.queue.take size }
      taken where
  carried := h.carried
  input := by
    obtain ⟨rest, hinput, hrest⟩ := h.input
    refine ⟨_, ?_, fun _ => rfl⟩
    show (b.input.take size).received = _
    rw [Channel.received_take, hinput, hrest hrun, List.append_assoc]
  written := h.written
  counted := h.counted
  records := h.records
  sent := h.sent
  bounded := h.bounded
  acknowledged := h.acknowledged
  datagrams := h.datagrams
  waiting := h.waiting
  heartbeats := h.heartbeats

/-- What an accepted frame does, to what the end sends and to what it receives. -/
theorem Sending.takeFrame (h : Sending decode b taken) (hrun : b.progress.ended = false) {fails : Bool}
    (htake : b.takeFrame decode fails = some b') :
    (∃ taken', Sending decode b' taken') ∧ Arrives b b' ∧ b.streamed <+: b'.streamed ∧
      b'.streamRead = b.streamRead ∧ b'.link.acknowledgedControl = b.link.acknowledgedControl := by
  unfold Bridge.takeFrame at htake
  split at htake
  · split at htake
    · cases htake
    · cases htake
      exact ⟨⟨taken, { h with }⟩, { Arrives.refl b with }, List.prefix_refl _, rfl, rfl⟩
  · split at htake
    · next control hdecode =>
        unfold Bridge.forward at htake
        split at htake
        · cases htake
        · next frame hbody =>
            have hdata : isData decode control = true := by rw [isData, hbody]
            obtain ⟨hframe, hcontrol⟩ := carried_of_frame hdecode (.inr hdata)
            split at htake
            · cases htake
            · cases htake
              exact ⟨⟨_, h.enter_data hrun hframe hcontrol hdata⟩, { Arrives.refl b with },
                List.prefix_refl _, rfl, rfl⟩
        · next hbody =>
            have hkind : isControl decode control = true := by rw [isControl, hbody]
            obtain ⟨hframe, hcontrol⟩ := carried_of_frame hdecode (.inl hkind)
            split at htake
            · cases htake
            · next link record hsend =>
                obtain ⟨_, _, hsend⟩ := bind_eq_ok.mp hsend
                obtain ⟨_, hsmall, hsend⟩ := bind_eq_ok.mp hsend
                replace hsmall := of_decide_eq_false (rejectIf_eq_ok.mp hsmall)
                cases hsend
                split at htake
                · cases htake
                · cases htake
                  exact ⟨⟨_, h.enter_control hrun hframe hcontrol hkind (Nat.not_le.mp hsmall)⟩,
                    { Arrives.refl b with streamed := ⟨_, rfl, rfl⟩ }, List.prefix_append _ _, rfl, rfl⟩
    · cases htake

theorem Linked.readInput_left (h : Linked decode a b) (hrun : a.progress.ended = false) (count : Nat)
    (fails : Bool) : Linked decode (a.readInput decode count fails) b := by
  unfold Bridge.readInput
  generalize min count (a.size - a.frame.length) = size
  dsimp only
  split
  · exact h
  split
  · split
    · exact h
    split
    · exact h.departs (departs_finish a) rfl
    · exact h.departs { Departs.refl a with ended := nofun } rfl
  obtain ⟨taken, passed, queued, offset, h⟩ := h
  have hread := h.sending.read hrun size
  have hlinked := h.left hread (List.prefix_refl _) rfl h.answers_le h.answered
  split
  · rename_i hwhole
    cases htake : Bridge.takeFrame decode
        { a with input := a.input.take size, frame := a.frame ++ a.input.queue.take size } fails with
    | none => exact Linked.departs ⟨_, _, _, _, hlinked⟩ (departs_finish _) rfl
    | some next =>
        obtain ⟨⟨taken', hsending⟩, harrives, hgrows, hstream, hacknowledged⟩ := hread.takeFrame hrun htake
        refine ⟨taken', passed, queued, offset, h.left hsending hgrows harrives.mesh ?_ ?_⟩
        · show next.streamRead ≤ _
          rw [hstream]
          exact h.answers_le
        · show (b.streamed.take next.streamRead).filterMap _ = List.range' 1 next.link.acknowledgedControl
          rw [hstream, hacknowledged]
          exact h.answered
  · exact ⟨taken, passed, queued, offset, hlinked⟩

theorem Linked.readInput_right (h : Linked decode a b) (hback : Linked decode b a)
    (hrun : b.progress.ended = false) (count : Nat) (fails : Bool) :
    Linked decode a (b.readInput decode count fails) := by
  unfold Bridge.readInput
  generalize min count (b.size - b.frame.length) = size
  dsimp only
  split
  · exact h
  split
  · split
    · exact h
    split
    · exact h.arrives (arrives_finish b) rfl
    · exact h.arrives { Arrives.refl b with ended := nofun } rfl
  split
  · cases htake : Bridge.takeFrame decode
        { b with input := b.input.take size, frame := b.frame ++ b.input.queue.take size } fails with
    | none => exact h.arrives { arrives_finish b with } rfl
    | some next =>
        obtain ⟨taken, passed, queued, offset, hback⟩ := hback
        obtain ⟨-, harrives, -, hstream, -⟩ := (hback.sending.read hrun size).takeFrame hrun htake
        exact h.arrives { harrives with } hstream
  · exact h.arrives { Arrives.refl b with } rfl

/-! ## Taking a record from the stream

What one end wrote is the next thing the other end unwraps, because both count from the same start. A
control is put on its way to the application and answered later; a receipt lets the entries that waited
for it be flushed.
-/

theorem zipIdx_concat_initial {α : Type} {xs ys : List α} {x : α} {n start : Nat}
    (h : xs.zipIdx start ++ [(x, n)] <+: ys.zipIdx start) : n = start + xs.length ∧ xs ++ [x] <+: ys := by
  have hat : (ys.zipIdx start)[xs.length]? = some (x, n) := by
    obtain ⟨more, hmore⟩ := h
    rw [← hmore]
    simp
  rw [List.getElem?_zipIdx, Option.map_eq_some_iff] at hat
  obtain ⟨y, hy, hpair⟩ := hat
  cases hpair
  refine ⟨rfl, ?_⟩
  have hfst := h.map Prod.fst
  rwa [List.map_append, List.zipIdx_map_fst, List.zipIdx_map_fst] at hfst

theorem range'_concat_initial {m k n : Nat} (h : List.range' 1 m ++ [n] <+: List.range' 1 k) :
    n = m + 1 ∧ n ≤ k := by
  have hlength := h.length_le
  rw [List.length_append, List.length_range', List.length_range', List.length_singleton] at hlength
  have hat : (List.range' 1 k)[m]? = some n := by
    obtain ⟨more, hmore⟩ := h
    rw [← hmore]
    simp
  rw [List.getElem?_range' (by omega)] at hat
  cases hat
  omega

theorem take_succ_of_getElem? {α : Type} {l : List α} {n : Nat} {x : α} (h : l[n]? = some x) :
    l.take (n + 1) = l.take n ++ [x] := by
  rw [List.take_add_one, h]
  rfl

/-- What came in is the front of what was sent. -/
theorem Flow.controls_initial (h : Flow decode a b taken passed queued offset) :
    (passed ++ queued).filter (isControl decode) <+: taken.filter (isControl decode) := by
  have hrecords := (List.take_prefix b.streamRead a.streamed).filterMap LinkRecord.record?
  rw [h.arrived, h.sending.records] at hrecords
  have hfst := hrecords.map Prod.fst
  rwa [List.zipIdx_map_fst, List.zipIdx_map_fst] at hfst

theorem Flow.received_le (h : Flow decode a b taken passed queued offset) :
    b.link.receivedControl ≤ a.link.sentControl := by
  rw [h.receiving.received, h.sending.sent]
  exact h.controls_initial.length_le

/-- The next record of the stream is the next of the sender's controls. -/
theorem Flow.next_record (h : Flow decode a b taken passed queued offset) {sequence : Nat}
    (hnext : a.streamed[b.streamRead]? = some (.record sequence control)) :
    sequence = b.link.receivedControl + 1 ∧ sequence < 2 ^ 64 ∧ Carried decode control ∧
      isControl decode control = true := by
  have hrecords := (List.take_prefix (b.streamRead + 1) a.streamed).filterMap LinkRecord.record?
  rw [take_succ_of_getElem? hnext, List.filterMap_append, h.arrived, h.sending.records] at hrecords
  obtain ⟨hsequence, hcontrols⟩ := zipIdx_concat_initial hrecords
  have hmem : control ∈ taken.filter (isControl decode) :=
    hcontrols.subset (List.mem_append_right _ (List.mem_singleton_self _))
  have hlength := hcontrols.length_le
  rw [List.length_append, List.length_singleton] at hlength
  have hreceived := h.receiving.received
  have hsent := h.sending.sent
  have hbounded := h.sending.bounded
  unfold countControls at hreceived hsent
  refine ⟨by omega, by omega, h.sending.carried control (List.mem_of_mem_filter hmem),
    (List.mem_filter.mp hmem).2⟩

/-- The next receipt is for the next of the controls that wait for one. -/
theorem Flow.next_receipt (h : Flow decode a b taken passed queued offset) {sequence : Nat}
    (hnext : b.streamed[a.streamRead]? = some (.receipt sequence)) :
    sequence = a.link.acknowledgedControl + 1 ∧ sequence ≤ a.link.sentControl := by
  obtain ⟨count, hcount, hle, -⟩ := h.receiving.receipts
  have hreceipts := (List.take_prefix (a.streamRead + 1) b.streamed).filterMap LinkRecord.receipt?
  rw [take_succ_of_getElem? hnext, List.filterMap_append, h.answered, hcount] at hreceipts
  obtain ⟨hsequence, hbound⟩ := range'_concat_initial hreceipts
  have hreceived := h.received_le
  rw [h.receiving.received, countControls_append] at hreceived
  exact ⟨hsequence, by omega⟩

/-- The receiving end takes something else than a control record. -/
theorem Flow.skip_record (h : Flow decode a b taken passed queued offset) {record : LinkRecord}
    (hnext : a.streamed[b.streamRead]? = some record) (hrecord : record.record? = none)
    (hstep : Arrives b b') (hread : b'.streamRead = b.streamRead + 1) : Linked decode a b' := by
  obtain ⟨extra, hstreamed, -⟩ := hstep.streamed
  refine ⟨taken, passed, queued, offset, h.right (hstep.receiving h.receiving) ⟨extra, hstreamed.symm⟩
    hstep.mesh ?_ ?_⟩
  · rw [hread]
    exact (List.getElem?_eq_some_iff.mp hnext).1
  · rw [hread, take_succ_of_getElem? hnext, List.filterMap_append, h.arrived]
    simp [hrecord]

/-- The sending end takes something else than a receipt. -/
theorem Flow.skip_receipt (h : Flow decode b a taken passed queued offset) {record : LinkRecord}
    (hnext : a.streamed[b.streamRead]? = some record) (hrecord : record.receipt? = none)
    (hstep : Departs b b') (hread : b'.streamRead = b.streamRead + 1) : Linked decode b' a := by
  obtain ⟨extra, hstreamed, -⟩ := hstep.streamed
  refine ⟨taken, passed, queued, offset, h.left (hstep.sending h.sending) ⟨extra, hstreamed.symm⟩
    hstep.mesh ?_ ?_⟩
  · rw [hread]
    exact (List.getElem?_eq_some_iff.mp hnext).1
  · rw [hread, take_succ_of_getElem? hnext, List.filterMap_append, h.answered, hstep.acknowledged]
    simp [hrecord]

/-- What one end wrote, the other unwraps. -/
theorem unwrap_next (hab : Linked decode a b) (hba : Linked decode b a) {record : LinkRecord}
    (hnext : a.streamed[b.streamRead]? = some record) :
    b.link.unwrapControl decode (record.envelope a.link.meshId) = .ok (match record with
      | .record sequence control => ({ b.link with receivedControl := sequence }, .control control)
      | .receipt sequence => ({ b.link with acknowledgedControl := sequence }, .acknowledged sequence)
      | .heartbeat sequence response => (b.link, if response then .pong sequence else .ping sequence)) := by
  obtain ⟨_, _, _, _, hab⟩ := hab
  obtain ⟨_, _, _, _, hba⟩ := hba
  rw [hab.mesh]
  cases record with
  | record sequence control =>
      obtain ⟨hsequence, hsmall, hcontrol, hkind⟩ := hab.next_record hnext
      have hmessage := (encodeLocal_eq_ok.mp hcontrol.encodeLocal_eq).1
      exact unwrap_record hsequence hsmall hcontrol.decode_eq (validateControl_of_isControl hkind hmessage)
  | receipt sequence =>
      obtain ⟨hsequence, hle⟩ := hba.next_receipt hnext
      exact unwrap_receipt (by omega) hle (Nat.lt_of_le_of_lt hle hba.sending.bounded)
  | heartbeat sequence response =>
      obtain ⟨hpositive, hsmall⟩ := hab.sending.heartbeats sequence response (List.mem_of_getElem? hnext)
      exact unwrap_heartbeat hpositive hsmall response

theorem Flow.take_record (h : Flow decode a b taken passed queued offset) {sequence : Nat}
    (hnext : a.streamed[b.streamRead]? = some (.record sequence control)) :
    Linked decode a
      { b with
        link := { b.link with receivedControl := sequence }
        streamRead := b.streamRead + 1
        pending := b.pending ++ [⟨localFrame control, 0, some sequence⟩] } := by
  obtain ⟨hsequence, -, hcontrol, hkind⟩ := h.next_record hnext
  have hpush := h.receiving.push hcontrol { b.link with receivedControl := sequence } (b.streamRead + 1)
    (by rw [countControls_control hkind]; exact hsequence)
  rw [if_pos hkind, ← hsequence] at hpush
  refine ⟨taken, passed, queued ++ [control], offset, h.right hpush (List.prefix_refl _) rfl
    (List.getElem?_eq_some_iff.mp hnext).1 ?_⟩
  show (a.streamed.take (b.streamRead + 1)).filterMap _ = _
  have hlength := h.receiving.received
  unfold countControls at hlength
  rw [take_succ_of_getElem? hnext, List.filterMap_append, h.arrived, ← List.append_assoc,
    List.filter_append (passed ++ queued), List.filter_cons_of_pos hkind, List.zipIdx_append, hsequence,
    hlength, Nat.add_comm _ 1]
  rfl

theorem Flow.take_receipt (h : Flow decode b a taken passed queued offset) {sequence : Nat}
    (hnext : a.streamed[b.streamRead]? = some (.receipt sequence)) :
    Linked decode
      (Bridge.settled
        { b with
          link := { b.link with acknowledgedControl := sequence }
          streamRead := b.streamRead + 1
          waiting := b.waiting.map (Bridge.answered sequence) }) a := by
  obtain ⟨hsequence, hle⟩ := h.next_receipt hnext
  have hsending := h.sending
  refine ⟨taken, passed, queued, offset, h.left ?_ (List.prefix_refl _) rfl
    (List.getElem?_eq_some_iff.mp hnext).1 ?_⟩
  · have hwaits : Waits decode sequence _ _ _ := hsending.waiting.answered (by omega)
    exact { hsending with acknowledged := hle, waiting := hwaits.settle }
  · show (a.streamed.take (b.streamRead + 1)).filterMap _ = List.range' 1 sequence
    rw [take_succ_of_getElem? hnext, List.filterMap_append, h.answered, hsequence, List.range'_concat,
      Nat.one_mul, Nat.add_comm 1]
    rfl

/-- Taking what the other end has written keeps both directions. -/
theorem linked_receive (hab : Linked decode a b) (hba : Linked decode b a) (fails : Bool) :
    Linked decode a (b.receive decode a fails) ∧ Linked decode (b.receive decode a fails) a := by
  have hfinish : Linked decode a b.finish ∧ Linked decode b.finish a :=
    ⟨hab.arrives (arrives_finish b) rfl, hba.departs (departs_finish b) rfl⟩
  unfold Bridge.receive
  split
  · exact ⟨hab, hba⟩
  cases hnext : a.streamed[b.streamRead]? with
  | none => exact ⟨hab, hba⟩
  | some record =>
      dsimp only
      rw [unwrap_next hab hba hnext]
      obtain ⟨_, _, _, _, hab⟩ := hab
      obtain ⟨_, _, _, _, hba⟩ := hba
      cases record with
      | record sequence control =>
          obtain ⟨-, -, hcontrol, -⟩ := hab.next_record hnext
          dsimp only [Bridge.handle, Bridge.push]
          rw [hcontrol.encodeLocal_eq]
          exact ⟨hab.take_record hnext, hba.skip_receipt hnext rfl { Departs.refl b with } rfl⟩
      | receipt sequence =>
          exact ⟨hab.skip_record hnext rfl { Arrives.refl b with } rfl, hba.take_receipt hnext⟩
      | heartbeat sequence response =>
          cases response with
          | false =>
              dsimp only [Bridge.handle]
              rw [if_neg Bool.false_ne_true]
              dsimp only
              split
              · exact hfinish
              · refine ⟨hab.skip_record hnext rfl { Arrives.refl b with streamed := ⟨_, rfl, rfl⟩ } rfl,
                  hba.skip_receipt hnext rfl { Departs.refl b with streamed := ⟨_, rfl, rfl, ?_⟩ } rfl⟩
                intro number response hmem
                cases List.mem_singleton.mp hmem
                exact hab.sending.heartbeats _ _ (List.mem_of_getElem? hnext)
          | true =>
              dsimp only [Bridge.handle]
              rw [if_pos rfl]
              dsimp only
              split <;> exact ⟨hab.skip_record hnext rfl { Arrives.refl b with } rfl,
                hba.skip_receipt hnext rfl { Departs.refl b with } rfl⟩

/-! ## Taking a datagram -/

theorem linked_receiveData (hab : Linked decode a b) (hba : Linked decode b a) (index : Nat) (fails : Bool) :
    Linked decode a (b.receiveData decode a index fails) ∧
      Linked decode (b.receiveData decode a index fails) a := by
  have hfinish : Linked decode a b.finish ∧ Linked decode b.finish a :=
    ⟨hab.arrives (arrives_finish b) rfl, hba.departs (departs_finish b) rfl⟩
  unfold Bridge.receiveData
  split
  · exact ⟨hab, hba⟩
  cases hsent : a.datagrams[index]? with
  | none => exact ⟨hab, hba⟩
  | some control =>
      obtain ⟨taken, passed, queued, offset, hab⟩ := hab
      have hmem : control ∈ taken.filter (isData decode) :=
        hab.sending.datagrams ▸ List.mem_of_getElem? hsent
      have hcontrol := hab.sending.carried control (List.mem_of_mem_filter hmem)
      have hkind := not_isControl_of_isData (List.mem_filter.mp hmem).2
      dsimp only
      rw [hcontrol.decode_eq]
      dsimp only
      split
      · exact hfinish
      · have hpush := hab.receiving.push hcontrol b.link b.streamRead
          (by rw [countControls_data hkind]; rfl)
        rw [if_neg (by rw [hkind]; nofun)] at hpush
        unfold Bridge.push
        rw [hcontrol.encodeLocal_eq]
        refine ⟨⟨taken, passed, queued ++ [control], offset, hab.right hpush (List.prefix_refl _) rfl
          hab.taken_le ?_⟩, hba.departs { Departs.refl b with } rfl⟩
        rw [← List.append_assoc, List.filter_append (passed ++ queued),
          List.filter_cons_of_neg (by rw [hkind]; nofun), List.filter_nil, List.append_nil]
        exact hab.arrived

/-! ## Runs -/

/-- A step of one end keeps what flows from it and what flows to it. -/
theorem linked_step (hab : Linked decode a b) (hba : Linked decode b a) (step : BridgeStep) :
    Linked decode a (b.step decode a step) ∧ Linked decode (b.step decode a step) a := by
  unfold Bridge.step
  by_cases hskip : (b.progress.ended && !step.isCall) = true
  · rw [if_pos hskip]
    exact ⟨hab, hba⟩
  rw [if_neg hskip]
  have hrun : step.isCall = false → b.progress.ended = false := by
    intro hcall
    rw [hcall, Bool.not_false, Bool.and_true] at hskip
    exact Bool.eq_false_iff.mpr hskip
  cases step with
  | write bytes =>
      have hread : (b.write bytes).streamRead = b.streamRead := by
        unfold Bridge.write
        split <;> rfl
      exact ⟨hab.arrives (arrives_write b bytes) hread, hba.departs (departs_write b bytes) hread⟩
  | countWritten =>
      exact ⟨hab.arrives { Arrives.refl b with } rfl, hba.departs (departs_countWritten b) rfl⟩
  | read count =>
      have hread : (b.read count).streamRead = b.streamRead := by
        unfold Bridge.read
        split <;> rfl
      exact ⟨hab.arrives (arrives_read b count) hread, hba.departs (departs_read b count) hread⟩
  | shutdown =>
      have hread : b.shutdown.streamRead = b.streamRead := by
        unfold Bridge.shutdown
        split <;> rfl
      exact ⟨hab.arrives (arrives_shutdown b) hread, hba.departs (departs_shutdown b) hread⟩
  | readInput count fails =>
      exact ⟨hab.readInput_right hba (hrun rfl) count fails, hba.readInput_left (hrun rfl) count fails⟩
  | receive fails => exact linked_receive hab hba fails
  | receiveData index fails => exact linked_receiveData hab hba index fails
  | deliver count fails =>
      exact ⟨hab.deliver (hrun rfl) count fails,
        hba.departs (departs_deliver b count fails) (streamRead_deliver b count fails)⟩
  | sweep overdue due fails =>
      have hprobe : ∀ c : Bridge, (c.sendProbe due fails).streamRead = c.streamRead := by
        intro c
        unfold Bridge.sendProbe
        split
        · split <;> rfl
        · rfl
      have hread : (b.sweep overdue due fails).streamRead = b.streamRead := by
        unfold Bridge.sweep
        split
        · split
          · rfl
          · exact hprobe _
        · exact hprobe b
      exact ⟨hab.arrives (arrives_sweep b overdue due fails) hread,
        hba.departs (departs_sweep b overdue due fails) hread⟩
  | abort =>
      exact ⟨hab.arrives (arrives_finish b) rfl, hba.departs (departs_finish b) rfl⟩

/-- A state of two bridges that some run reaches. -/
def Bridges.Reachable (decode : EnvelopeDecoder) (s : Bridges) : Prop :=
  ∃ (meshId : Bytes) (source dialled : Option RelayId) (events : List (Side × BridgeStep)),
    s = exec (Bridges.step decode) (.start meshId source dialled) events

theorem linked_start (meshId : Bytes) (source dialled : Option RelayId) :
    Linked decode (Bridges.start meshId source dialled).left (Bridges.start meshId source dialled).right ∧
      Linked decode (Bridges.start meshId source dialled).right
        (Bridges.start meshId source dialled).left := by
  have hsending : ∀ link : QuicLink, link.sentControl = 0 → link.acknowledgedControl = 0 →
      Sending decode { link } [] := by
    intro link hsent hacknowledged
    have hbounded : link.sentControl < 2 ^ 64 := by omega
    exact ⟨nofun, ⟨[], rfl, fun _ => rfl⟩, rfl, rfl, rfl, hsent, hbounded,
      hacknowledged.le.trans (Nat.zero_le _), rfl, ⟨[], [], rfl, rfl, Nat.zero_le _, rfl⟩, nofun⟩
  have hreceiving : ∀ link : QuicLink, link.receivedControl = 0 → Receiving decode { link } [] [] 0 := by
    intro link hreceived
    exact ⟨nofun, rfl, rfl, nofun, fun _ => rfl, hreceived, 0, rfl, Nat.le_refl _, fun _ => rfl⟩
  constructor <;> exact ⟨[], [], [], 0, hsending _ rfl rfl, hreceiving _ rfl, rfl, Nat.le_refl _,
    Nat.le_refl _, rfl, rfl⟩

theorem Bridges.Reachable.linked {s : Bridges} (h : s.Reachable decode) :
    Linked decode s.left s.right ∧ Linked decode s.right s.left := by
  obtain ⟨meshId, source, dialled, events, rfl⟩ := h
  refine exec_invariant (I := fun s : Bridges => Linked decode s.left s.right ∧ Linked decode s.right s.left)
    (linked_start meshId source dialled) ?_ events
  rintro s ⟨side, step⟩ ⟨hleft, hright⟩
  cases side with
  | left => exact (linked_step hright hleft step).symm
  | right => exact linked_step hleft hright step

/-! ## What the applications see

The invariant speaks of records taken and records passed. An application sees the bytes it has written and
read and whether its flush is ready; these lemmas say the one in terms of the other.
-/

theorem Flow.controlsIn_output (h : Flow decode a b taken passed queued offset) :
    controlsIn decode b.output.sent = passed.filter (isControl decode) := by
  have hcarried := fun control hmem => h.receiving.carried control (List.mem_append_left queued hmem)
  have hbegun : recordsIn decode (begun offset queued) = [] := by
    cases queued with
    | nil => rfl
    | cons first queued =>
        exact recordsIn_of_incomplete (h.receiving.carried first (by simp)) (h.receiving.offset_lt first rfl)
  rw [controlsIn, h.receiving.output, recordsIn_append hcarried, hbegun, List.append_nil]

/-- What the application wrote begins with what was taken from it. -/
theorem Flow.recordsIn_input (h : Flow decode a b taken passed queued offset) :
    ∃ more, recordsIn decode a.input.sent = taken ++ more := by
  obtain ⟨rest, hinput, -⟩ := h.sending.input
  rw [← a.input.received_append_queue, hinput, List.append_assoc, recordsIn_append h.sending.carried]
  exact ⟨_, rfl⟩

/-- A flush is ready when everything that was written is taken and acknowledged. -/
theorem Flow.flushed (h : Flow decode a b taken passed queued offset) (hidle : a.writing = false)
    (hready : a.pollFlush = .ready) :
    recordsIn decode a.input.sent = taken ∧
      passed.filter (isControl decode) = taken.filter (isControl decode) := by
  have hle : a.input.sent.length ≤ a.progress.flushed := by
    have hcounted : a.uncounted = 0 := Nat.eq_zero_of_not_pos (of_decide_eq_false hidle)
    rw [← h.sending.counted, hcounted, Nat.add_zero]
    unfold Bridge.pollFlush at hready
    split at hready
    · assumption
    · split at hready <;> cases hready
  obtain ⟨rest, hinput, -⟩ := h.sending.input
  obtain ⟨done, undone, rfl, hflushed, hdone, -⟩ := h.sending.waiting
  have hsent : a.input.sent = pipeBytes done ++ (pipeBytes undone ++ rest ++ a.input.queue) := by
    rw [← a.input.received_append_queue, hinput, pipeBytes_append, List.append_assoc, List.append_assoc,
      List.append_assoc]
  have hlength := congrArg List.length hsent
  rw [List.length_append, List.length_append, List.length_append] at hlength
  have hundone : undone = [] := pipeBytes_eq_nil (by omega)
  have hnothing : pipeBytes undone ++ rest ++ a.input.queue = [] :=
    List.eq_nil_of_length_eq_zero (by rw [List.length_append, List.length_append]; omega)
  subst hundone
  constructor
  · have hdoneCarried := fun control hmem => h.sending.carried control (List.mem_append_left [] hmem)
    rw [hsent, hnothing, recordsIn_append hdoneCarried, List.append_nil]
    exact List.append_nil done
  · obtain ⟨count, hcount, hpassed, -⟩ := h.receiving.receipts
    have hanswered := (List.take_prefix a.streamRead b.streamed).filterMap LinkRecord.receipt?
    rw [h.answered, hcount] at hanswered
    have hacknowledged := hanswered.length_le
    rw [List.length_range', List.length_range'] at hacknowledged
    have hinitial := h.controls_initial
    rw [List.filter_append] at hinitial
    refine ((List.prefix_append _ _).trans hinitial).eq_of_length_le ?_
    unfold countControls at hdone hpassed
    rw [List.append_nil]
    omega

/-- What the application at `b` has of the controls that the application at `a` wrote. -/
structure Delivers (decode : EnvelopeDecoder) (a b : Bridge) : Prop where
  /-- A running end unwraps what the other end wrote. -/
  unwraps : b.progress.ended = false → ∀ record, a.streamed[b.streamRead]? = some record →
    ∃ outcome, b.link.unwrapControl decode (record.envelope a.link.meshId) = .ok outcome
  inOrder : controlsIn decode b.output.received <+: controlsIn decode a.input.sent
  /-- A ready flush means delivered, or handed to the datagram channel. -/
  flushed : a.writing = false → a.pollFlush = .ready →
    controlsIn decode b.output.sent = controlsIn decode a.input.sent ∧
      a.datagrams = dataIn decode a.input.sent
  /-- What is flushed is written, or the `poll_write` under way is about to count it. -/
  bounded : a.progress.flushed ≤ a.progress.written + a.uncounted
  /-- Every control that is in the pipe has its receipt, unless the run ended in between. -/
  acknowledged : ∃ count, b.streamed.filterMap LinkRecord.receipt? = List.range' 1 count ∧
    count ≤ (controlsIn decode b.output.sent).length ∧
    (b.progress.ended = false → count = (controlsIn decode b.output.sent).length)

theorem Linked.delivers (hab : Linked decode a b) (hba : Linked decode b a) : Delivers decode a b := by
  have hunwraps := fun record (hnext : a.streamed[b.streamRead]? = some record) => unwrap_next hab hba hnext
  obtain ⟨taken, passed, queued, offset, h⟩ := hab
  have houtput := h.controlsIn_output
  obtain ⟨more, hinput⟩ := h.recordsIn_input
  refine ⟨fun _ record hnext => ⟨_, hunwraps record hnext⟩, ?_, fun hidle hready => ?_, ?_, ?_⟩
  · refine (controlsIn_initial b.output.received_initial).trans ?_
    have hinitial := h.controls_initial
    rw [List.filter_append] at hinitial
    rw [houtput, controlsIn, hinput, List.filter_append]
    exact ((List.prefix_append _ _).trans hinitial).trans (List.prefix_append _ _)
  · obtain ⟨hall, hpassed⟩ := h.flushed hidle hready
    exact ⟨by rw [houtput, controlsIn, hall, hpassed], by rw [dataIn, hall, h.sending.datagrams]⟩
  · obtain ⟨rest, hreceived, -⟩ := h.sending.input
    obtain ⟨done, undone, rfl, hflushed, -⟩ := h.sending.waiting
    have hlength := a.input.received_initial.length_le
    rw [hreceived, pipeBytes_append, List.length_append, List.length_append] at hlength
    rw [h.sending.counted]
    omega
  · rw [houtput]
    exact h.receiving.receipts

/-- **Control records cross the bridges exactly once and in order, and flushed means delivered**, in
both directions of every run. -/
theorem delivers_of_run {s : Bridges} (h : s.Reachable decode) :
    Delivers decode s.left s.right ∧ Delivers decode s.right s.left :=
  ⟨h.linked.1.delivers h.linked.2, h.linked.2.delivers h.linked.1⟩

/-! ## One record there and back

A keepalive is written, taken, carried over, read and acknowledged, and then the flush is ready. Between
the two steps of its `poll_write` it may already be flushed, which is why the bound of `Delivers` counts
the bytes not yet counted.
-/

def keepalive : ControlEnvelope := { message := some (.keepalive 123) }

/-- Prost, as far as the run below needs it. -/
def keepaliveDecoder : EnvelopeDecoder := fun bytes =>
  if bytes = keepalive.encode then some keepalive else none

def keepaliveEvents : List (Side × BridgeStep) :=
  [(.left, .write (localFrame keepalive)), (.left, .readInput 4096 false), (.left, .readInput 4096 false),
    (.right, .receive false), (.right, .deliver 4096 false), (.left, .receive false)]

theorem keepalive_delivered :
    let s := exec (Bridges.step keepaliveDecoder) (.start (List.replicate 16 1) none none)
      (keepaliveEvents ++ [(.left, .countWritten)])
    s.left.writing = false ∧ s.left.pollFlush = .ready ∧
      controlsIn keepaliveDecoder s.right.output.sent = [keepalive] ∧
      Delivers keepaliveDecoder s.left s.right ∧ Delivers keepaliveDecoder s.right s.left :=
  ⟨by decide +kernel, by decide +kernel, by decide +kernel,
    delivers_of_run ⟨_, _, _, keepaliveEvents ++ [(.left, .countWritten)], rfl⟩⟩

/-- The record is flushed before the `poll_write` that brought it has counted its bytes. -/
theorem flushed_ahead_of_written : ∃ s : Bridges, s.Reachable keepaliveDecoder ∧
    s.left.progress.written < s.left.progress.flushed :=
  ⟨_, ⟨List.replicate 16 1, none, none, keepaliveEvents, rfl⟩, by decide +kernel⟩

end Peerward.Carrier
