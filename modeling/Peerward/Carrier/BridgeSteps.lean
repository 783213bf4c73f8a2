import Peerward.Carrier.BridgeInvariant

/-!
# Every step of the bridges keeps the agreement

A step changes one of the two ends. `Departs` and `Arrives` are the steps that do not touch what that end
sends, and what it receives; the others take a record from the application, a record or a receipt from the
stream, or write to the application.
-/

namespace Peerward.Carrier

open Peerward.Lib Peerward.Wire Peerward.Relay

variable {decode : EnvelopeDecoder} {control : ControlEnvelope}
  {taken passed queued : List ControlEnvelope} {offset : Nat} {a a' b b' c : Bridge}

/-! ## Steps beside a direction

Most steps of an end have nothing to do with what it sends, or with what it receives. `Departs` and
`Arrives` say so, and a step that is both leaves the agreement of the two ends as it was.
-/

/-- `a'` has sent what `a` had sent, and perhaps some receipts and heartbeats more. -/
structure Departs (a a' : Bridge) : Prop where
  received : a'.input.received = a.input.received
  frame : a'.frame = a.frame
  counted : a.progress.written + a.uncounted = a.input.sent.length →
    a'.progress.written + a'.uncounted = a'.input.sent.length
  ended : a'.progress.ended = false → a.progress.ended = false
  written : a'.written = a.written
  waiting : a'.waiting = a.waiting
  flushed : a'.progress.flushed = a.progress.flushed
  sent : a'.link.sentControl = a.link.sentControl
  acknowledged : a'.link.acknowledgedControl = a.link.acknowledgedControl
  mesh : a'.link.meshId = a.link.meshId
  datagrams : a'.datagrams = a.datagrams
  streamed : ∃ extra, a'.streamed = a.streamed ++ extra ∧ extra.filterMap LinkRecord.record? = [] ∧
    ∀ sequence response, .heartbeat sequence response ∈ extra → 0 < sequence ∧ sequence < 2 ^ 64

theorem Departs.refl (a : Bridge) : Departs a a where
  received := rfl
  frame := rfl
  counted := id
  ended := id
  written := rfl
  waiting := rfl
  flushed := rfl
  sent := rfl
  acknowledged := rfl
  mesh := rfl
  datagrams := rfl
  streamed := ⟨[], (List.append_nil _).symm, rfl, fun _ _ h => nomatch h⟩

theorem Departs.sending (h : Departs a a') (ha : Sending decode a taken) : Sending decode a' taken := by
  obtain ⟨extra, hstreamed, hrecords, hheartbeats⟩ := h.streamed
  obtain ⟨rest, hinput, hrest⟩ := ha.input
  refine ⟨ha.carried, ⟨rest, by rw [h.received, hinput], fun hended => ?_⟩, by rw [h.written, ha.written],
    h.counted ha.counted, ?_, by rw [h.sent, ha.sent], by rw [h.sent]; exact ha.bounded,
    by rw [h.sent, h.acknowledged]; exact ha.acknowledged, by rw [h.datagrams, ha.datagrams], ?_, ?_⟩
  · rw [h.frame, hrest (h.ended hended)]
  · rw [hstreamed, List.filterMap_append, hrecords, List.append_nil, ha.records]
  · rw [h.acknowledged, h.waiting, h.flushed]
    exact ha.waiting
  · intro sequence response hmem
    rw [hstreamed, List.mem_append] at hmem
    exact hmem.elim (ha.heartbeats sequence response) (hheartbeats sequence response)

/-- `b'` has received what `b` had received, and perhaps sent some records and heartbeats more. -/
structure Arrives (b b' : Bridge) : Prop where
  pending : b'.pending = b.pending
  output : b'.output.sent = b.output.sent
  received : b'.link.receivedControl = b.link.receivedControl
  mesh : b'.link.meshId = b.link.meshId
  ended : b'.progress.ended = false → b.progress.ended = false
  streamed : ∃ extra, b'.streamed = b.streamed ++ extra ∧ extra.filterMap LinkRecord.receipt? = []

theorem Arrives.refl (b : Bridge) : Arrives b b where
  pending := rfl
  output := rfl
  received := rfl
  mesh := rfl
  ended := id
  streamed := ⟨[], (List.append_nil _).symm, rfl⟩

theorem Arrives.receiving (h : Arrives b b') (hb : Receiving decode b passed queued offset) :
    Receiving decode b' passed queued offset := by
  obtain ⟨extra, hstreamed, hreceipts⟩ := h.streamed
  obtain ⟨count, hcount, hle, hall⟩ := hb.receipts
  refine ⟨hb.carried, by rw [h.pending, hb.pending], by rw [h.output, hb.output], hb.offset_lt,
    hb.offset_eq, by rw [h.received, hb.received], count, ?_, hle, fun hended => hall (h.ended hended)⟩
  rw [hstreamed, List.filterMap_append, hreceipts, List.append_nil, hcount]

/-- The front of a list does not change when the list grows. -/
theorem take_of_initial {α : Type} {count : Nat} {l l' : List α} (h : l <+: l')
    (hcount : count ≤ l.length) : l'.take count = l.take count := by
  obtain ⟨extra, rfl⟩ := h
  exact List.take_append_of_le_length hcount

/-- The end that sends makes a step. -/
theorem Flow.left (h : Flow decode a b taken passed queued offset) {taken' : List ControlEnvelope}
    (hsending : Sending decode a' taken') (hgrows : a.streamed <+: a'.streamed)
    (hmesh : a'.link.meshId = a.link.meshId) (hread : a'.streamRead ≤ b.streamed.length)
    (hanswered : (b.streamed.take a'.streamRead).filterMap LinkRecord.receipt? =
      List.range' 1 a'.link.acknowledgedControl) : Flow decode a' b taken' passed queued offset where
  sending := hsending
  receiving := h.receiving
  mesh := hmesh.trans h.mesh
  taken_le := Nat.le_trans h.taken_le hgrows.length_le
  answers_le := hread
  arrived := by rw [take_of_initial hgrows h.taken_le, h.arrived]
  answered := hanswered

/-- The end that receives makes a step. -/
theorem Flow.right (h : Flow decode a b taken passed queued offset) {passed' queued' : List ControlEnvelope}
    {offset' : Nat} (hreceiving : Receiving decode b' passed' queued' offset')
    (hgrows : b.streamed <+: b'.streamed) (hmesh : b'.link.meshId = b.link.meshId)
    (hread : b'.streamRead ≤ a.streamed.length)
    (harrived : (a.streamed.take b'.streamRead).filterMap LinkRecord.record? =
      ((passed' ++ queued').filter (isControl decode)).zipIdx 1) :
    Flow decode a b' taken passed' queued' offset' where
  sending := h.sending
  receiving := hreceiving
  mesh := h.mesh.trans hmesh.symm
  taken_le := hread
  answers_le := Nat.le_trans h.answers_le hgrows.length_le
  arrived := harrived
  answered := by rw [take_of_initial hgrows h.answers_le, h.answered]

theorem Linked.departs (h : Linked decode a b) (hstep : Departs a a')
    (hread : a'.streamRead = a.streamRead) : Linked decode a' b := by
  obtain ⟨taken, passed, queued, offset, h⟩ := h
  obtain ⟨extra, hstreamed, -⟩ := hstep.streamed
  refine ⟨taken, passed, queued, offset, h.left (hstep.sending h.sending) ⟨extra, hstreamed.symm⟩ hstep.mesh
    (hread ▸ h.answers_le) ?_⟩
  rw [hread, hstep.acknowledged, h.answered]

theorem Linked.arrives (h : Linked decode a b) (hstep : Arrives b b')
    (hread : b'.streamRead = b.streamRead) : Linked decode a b' := by
  obtain ⟨taken, passed, queued, offset, h⟩ := h
  obtain ⟨extra, hstreamed, -⟩ := hstep.streamed
  refine ⟨taken, passed, queued, offset, h.right (hstep.receiving h.receiving) ⟨extra, hstreamed.symm⟩
    hstep.mesh (hread ▸ h.taken_le) ?_⟩
  rw [hread, h.arrived]

/-! ## The application and the timer -/

theorem departs_finish (b : Bridge) : Departs b b.finish :=
  { Departs.refl b with ended := nofun }

theorem arrives_finish (b : Bridge) : Arrives b b.finish :=
  { Arrives.refl b with ended := nofun }

theorem departs_write (b : Bridge) (bytes : Bytes) : Departs b (b.write bytes) := by
  unfold Bridge.write
  split
  · exact .refl b
  · next hidle =>
      refine { Departs.refl b with received := Channel.received_put _ _, counted := fun h => ?_ }
      have hcounted : b.uncounted = 0 := by
        simp only [Bridge.writing, Bool.or_eq_true, decide_eq_true_eq, not_or, Nat.not_lt] at hidle
        omega
      rw [Channel.sent_put, List.length_append, ← h, hcounted, Nat.add_zero]

theorem arrives_write (b : Bridge) (bytes : Bytes) : Arrives b (b.write bytes) := by
  unfold Bridge.write
  split
  · exact .refl b
  · exact { Arrives.refl b with }

theorem departs_countWritten (b : Bridge) : Departs b b.countWritten :=
  { Departs.refl b with counted := fun h => h }

theorem departs_read (b : Bridge) (count : Nat) : Departs b (b.read count) := by
  unfold Bridge.read
  split
  · exact .refl b
  · exact { Departs.refl b with }

theorem arrives_read (b : Bridge) (count : Nat) : Arrives b (b.read count) := by
  unfold Bridge.read
  split
  · exact .refl b
  · exact { Arrives.refl b with }

theorem departs_shutdown (b : Bridge) : Departs b b.shutdown := by
  unfold Bridge.shutdown
  split
  · exact { Departs.refl b with }
  · exact .refl b

theorem arrives_shutdown (b : Bridge) : Arrives b b.shutdown := by
  unfold Bridge.shutdown
  split
  · exact { Arrives.refl b with }
  · exact .refl b

theorem departs_sendProbe (b : Bridge) (due fails : Bool) : Departs b (b.sendProbe due fails) := by
  unfold Bridge.sendProbe
  split
  · split
    · exact departs_finish b
    · next hok =>
        simp only [Bool.or_eq_true, decide_eq_true_eq, not_or, not_le] at hok
        refine { Departs.refl b with streamed := ⟨_, rfl, rfl, fun sequence response hmem => ?_⟩ }
        rw [List.mem_singleton] at hmem
        cases hmem
        exact ⟨Nat.succ_pos _, hok.2⟩
  · exact .refl b

theorem arrives_sendProbe (b : Bridge) (due fails : Bool) : Arrives b (b.sendProbe due fails) := by
  unfold Bridge.sendProbe
  split
  · split
    · exact arrives_finish b
    · exact { Arrives.refl b with streamed := ⟨_, rfl, rfl⟩ }
  · exact .refl b

theorem departs_sweep (b : Bridge) (overdue due fails : Bool) : Departs b (b.sweep overdue due fails) := by
  unfold Bridge.sweep
  split
  · split
    · exact departs_finish b
    · exact { departs_sendProbe { b with probe := none, missed := b.missed + 1 } due fails with }
  · exact departs_sendProbe b due fails

theorem arrives_sweep (b : Bridge) (overdue due fails : Bool) : Arrives b (b.sweep overdue due fails) := by
  unfold Bridge.sweep
  split
  · split
    · exact arrives_finish b
    · exact { arrives_sendProbe { b with probe := none, missed := b.missed + 1 } due fails with }
  · exact arrives_sendProbe b due fails

/-! ## Writing to the application

Of the first frame some bytes are written, or all that is left. Only the second case passes a record, and
only then is a receipt due for it.
-/

/-- One more frame behind those on their way. -/
theorem Receiving.push (h : Receiving decode b passed queued offset) (hcontrol : Carried decode control)
    (link : QuicLink) (streamRead : Nat)
    (hreceived : link.receivedControl = b.link.receivedControl + countControls decode [control]) :
    Receiving decode
      { b with
        link
        streamRead
        pending := b.pending ++ [⟨localFrame control, 0,
          if isControl decode control then some (b.link.receivedControl + 1) else none⟩] }
      passed (queued ++ [control]) offset where
  carried := by
    rw [← List.append_assoc]
    intro other hother
    rcases List.mem_append.mp hother with hother | hother
    · exact h.carried other hother
    · exact List.mem_singleton.mp hother ▸ hcontrol
  pending := by
    show b.pending ++ _ = _
    rw [frameQueue_append h.offset_eq, ← h.pending, h.received, countControls_append]
  output := by
    show b.output.sent = _
    rw [h.output]
    cases queued with
    | nil => rw [h.offset_eq rfl, begun_zero, begun_zero]
    | cons first queued => rfl
  offset_lt := by
    cases queued with
    | nil =>
        intro other hother
        rw [h.offset_eq rfl]
        exact length_localFrame_pos
    | cons first queued => exact h.offset_lt
  offset_eq hnil := absurd hnil (List.append_ne_nil_of_right_ne_nil _ (List.cons_ne_nil _ _))
  received := by
    show link.receivedControl = _
    rw [hreceived, h.received, ← List.append_assoc, countControls_append [control]]
  receipts := h.receipts

theorem departs_deliver (b : Bridge) (count : Nat) (fails : Bool) : Departs b (b.deliver count fails) := by
  unfold Bridge.deliver
  split
  · exact .refl b
  · dsimp only
    split
    · exact .refl b
    · split
      · split
        · exact { Departs.refl b with }
        · split
          · exact { departs_finish b with }
          · refine { Departs.refl b with streamed := ⟨_, rfl, rfl, fun sequence response hmem => ?_⟩ }
            rw [List.mem_singleton] at hmem
            cases hmem
      · exact { Departs.refl b with }

theorem streamRead_deliver (b : Bridge) (count : Nat) (fails : Bool) :
    (b.deliver count fails).streamRead = b.streamRead := by
  unfold Bridge.deliver
  split
  · rfl
  · dsimp only
    split_ifs
    · rfl
    · split <;> rfl
    · split <;> rfl
    · rfl

/-- The rest of the first frame is written: one more record has passed. -/
theorem Receiving.passes (h : Receiving decode b passed (control :: queued) offset) {output : Channel UInt8}
    (houtput : output.sent = b.output.sent ++ (localFrame control).drop offset) (streamed : List LinkRecord)
    (progress : Progress)
    (hstreamed : ∃ count, streamed.filterMap LinkRecord.receipt? = List.range' 1 count ∧
      count ≤ countControls decode (passed ++ [control]) ∧
      (progress.ended = false → count = countControls decode (passed ++ [control]))) :
    Receiving decode
      { b with
        output
        streamed
        progress
        pending := frameQueue decode (countControls decode (passed ++ [control])) 0 queued }
      (passed ++ [control]) queued 0 where
  carried := by
    rw [List.append_assoc, List.singleton_append]
    exact h.carried
  pending := rfl
  output := by
    show output.sent = _
    rw [houtput, h.output, begun_zero, List.append_nil, pipeBytes_append, List.append_assoc]
    congr 1
    show (localFrame control).take offset ++ _ = localFrame control ++ []
    rw [List.take_append_drop, List.append_nil]
  offset_lt _ _ := length_localFrame_pos
  offset_eq _ := rfl
  received := by
    show b.link.receivedControl = _
    rw [h.received, List.append_assoc, List.singleton_append]
  receipts := hstreamed

/-- Some more of the first frame is written. -/
theorem Receiving.begins (h : Receiving decode b passed (control :: queued) offset) (output : Channel UInt8)
    (size : Nat) (hsize : offset + size < (localFrame control).length)
    (houtput : output.sent = b.output.sent ++ slice (localFrame control) offset (offset + size)) :
    Receiving decode
      { b with
        output
        pending := frameQueue decode (countControls decode passed) (offset + size) (control :: queued) }
      passed (control :: queued) (offset + size) where
  carried := h.carried
  pending := rfl
  output := by
    show output.sent = _
    rw [houtput, h.output, List.append_assoc]
    congr 1
    show (localFrame control).take offset ++ ((localFrame control).drop offset).take _ = _
    rw [Nat.add_sub_cancel_left, ← List.take_add]
    rfl
  offset_lt := by
    intro other hother
    cases hother
    exact hsize
  offset_eq := nofun
  received := h.received
  receipts := h.receipts

theorem Linked.deliver (h : Linked decode a b) (hrun : b.progress.ended = false) (count : Nat) (fails : Bool) :
    Linked decode a (b.deliver count fails) := by
  obtain ⟨taken, passed, queued, offset, h⟩ := h
  have hreceiving := h.receiving
  cases queued with
  | nil =>
      have hsame : b.deliver count fails = b := by
        unfold Bridge.deliver
        rw [hreceiving.pending, frameQueue]
      rw [hsame]
      exact ⟨taken, passed, [], offset, h⟩
  | cons control queued =>
      have hpending : b.pending = ⟨localFrame control, offset,
          if isControl decode control then some (countControls decode passed + 1) else none⟩ ::
            frameQueue decode (countControls decode passed + countControls decode [control]) 0 queued :=
        hreceiving.pending
      have hlt : offset < (localFrame control).length := hreceiving.offset_lt control rfl
      have hbegun : passed ++ [control] ++ queued = passed ++ control :: queued := by
        rw [List.append_assoc, List.singleton_append]
      rw [← countControls_append] at hpending
      unfold Bridge.deliver
      rw [hpending]
      dsimp only [Pending.remaining]
      generalize hsize : min count (min ((localFrame control).length - offset) b.outputFree) = size
      have hle : offset + size ≤ (localFrame control).length := by
        have : size ≤ (localFrame control).length - offset :=
          hsize ▸ Nat.le_trans (Nat.min_le_right _ _) (Nat.min_le_left _ _)
        omega
      split
      · exact ⟨taken, passed, _, offset, h⟩
      split
      · next hwhole =>
          have houtput : (b.output.put (slice (localFrame control) offset (offset + size))).sent =
              b.output.sent ++ (localFrame control).drop offset := by
            rw [Channel.sent_put, hwhole, slice, ← List.length_drop, List.take_length]
          obtain ⟨number, hreceipts, hnumber, hall⟩ := hreceiving.receipts
          have hnext : countControls decode (passed ++ [control]) =
              countControls decode passed + countControls decode [control] := countControls_append _
          -- the whole frame is out: a control is owed a receipt, a datagram is not
          by_cases hcontrol : isControl decode control = true
          · rw [countControls_control hcontrol] at hnext
            rw [if_pos hcontrol]
            dsimp only
            split
            · have hpassed := hreceiving.passes houtput b.streamed
                { b.progress with ended := true } ⟨number, hreceipts, by omega, by rintro ⟨⟩⟩
              exact ⟨taken, passed ++ [control], queued, 0, h.right hpassed (List.prefix_refl _) rfl
                h.taken_le (by rw [hbegun]; exact h.arrived)⟩
            · have hpassed := hreceiving.passes houtput
                (b.streamed ++ [.receipt (countControls decode passed + 1)]) b.progress
                ⟨number + 1, by
                  rw [List.filterMap_append, hreceipts, hall hrun, List.range'_concat, Nat.one_mul,
                    Nat.add_comm 1]
                  rfl, by omega, fun hended => by rw [hnext, hall hended]⟩
              exact ⟨taken, passed ++ [control], queued, 0, h.right hpassed (List.prefix_append _ _) rfl
                h.taken_le (by rw [hbegun]; exact h.arrived)⟩
          · rw [countControls_data (Bool.eq_false_iff.mpr hcontrol)] at hnext
            rw [if_neg hcontrol]
            have hpassed := hreceiving.passes houtput b.streamed b.progress
              ⟨number, hreceipts, by omega, fun hended => by rw [hnext, hall hended]; rfl⟩
            exact ⟨taken, passed ++ [control], queued, 0, h.right hpassed (List.prefix_refl _) rfl
              h.taken_le (by rw [hbegun]; exact h.arrived)⟩
      · next hpart =>
          -- a part of the frame is out, and nothing has passed
          have hbegins := hreceiving.begins
            (b.output.put (slice (localFrame control) offset (offset + size))) size (by omega) rfl
          rw [frameQueue, ← countControls_append] at hbegins
          exact ⟨taken, passed, control :: queued, offset + size, h.right hbegins (List.prefix_refl _) rfl
            h.taken_le h.arrived⟩

end Peerward.Carrier
