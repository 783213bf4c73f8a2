import Peerward.Carrier.QuicBridge

/-!
# What the two ends of a bridge agree on

`Sending` says how the counters of an end follow from the records it took from its application,
`Receiving` how its pipe and receipts follow from the records that came in. `Flow` joins the two across the
reliable stream: what one end has taken in is the front of what the other end sent.
-/

namespace Peerward.Carrier

open Peerward.Lib Peerward.Wire Peerward.Relay

variable {decode : EnvelopeDecoder} {bytes front back : Bytes} {control : ControlEnvelope}
  {records taken passed queued : List ControlEnvelope} {a b : Bridge}

/-! ## Records in a pipe

The bridges move bytes; what the two applications agree on are records. A pipe is a concatenation of
frames, of which the last may be cut off, and the records in it are those of its whole frames.
-/

/-- A record that the local codec and the channel choice agree on. -/
structure Carried (decode : EnvelopeDecoder) (control : ControlEnvelope) : Prop where
  local_eq : decodeLocal decode (localFrame control) = .ok (.control control)
  kind : isControl decode control = true ∨ isData decode control = true

def pipeBytes (records : List ControlEnvelope) : Bytes := (records.map localFrame).flatten

@[simp] theorem pipeBytes_nil : pipeBytes [] = [] := rfl

@[simp] theorem pipeBytes_cons :
    pipeBytes (control :: records) = localFrame control ++ pipeBytes records := rfl

@[simp] theorem pipeBytes_append (more : List ControlEnvelope) :
    pipeBytes (records ++ more) = pipeBytes records ++ pipeBytes more := by
  unfold pipeBytes
  rw [List.map_append, List.flatten_append]

theorem length_localFrame_pos : 0 < (localFrame control).length := by
  rw [length_localFrame]
  omega

theorem pipeBytes_eq_nil (h : (pipeBytes records).length = 0) : records = [] := by
  cases records with
  | nil => rfl
  | cons control records =>
      rw [pipeBytes_cons, List.length_append] at h
      have hpositive : 0 < (localFrame control).length := length_localFrame_pos
      omega

theorem Carried.isFrame (h : Carried decode control) : IsFrame MAX_LOCAL_RECORD (localFrame control) :=
  isFrame_localFrame (encodeLocal_eq_ok.mp (decodeLocal_eq_ok.mp h.local_eq).1).2.1

theorem Carried.decode_eq (h : Carried decode control) : decode control.encode = some control :=
  (decodeLocal_eq_ok.mp h.local_eq).2

theorem Carried.encodeLocal_eq (h : Carried decode control) :
    encodeLocal (.control control) = .ok (localFrame control) :=
  (decodeLocal_eq_ok.mp h.local_eq).1

theorem recordsIn_append (h : ∀ control ∈ records, Carried decode control) :
    recordsIn decode (pipeBytes records ++ back) = records ++ recordsIn decode back := by
  have hframes : ∀ frame ∈ records.map localFrame, IsFrame MAX_LOCAL_RECORD frame := by
    intro frame hframe
    obtain ⟨control, hcontrol, rfl⟩ := List.mem_map.mp hframe
    exact (h control hcontrol).isFrame
  have hrecords : (records.map localFrame).filterMap (recordOf decode) = records := by
    rw [List.filterMap_map]
    refine (List.filterMap_congr fun control hcontrol => ?_).trans List.filterMap_some
    show recordOf decode (localFrame control) = some control
    rw [recordOf, (h control hcontrol).local_eq]
  unfold recordsIn pipeBytes
  rw [frames_flatten hframes, List.filterMap_append, hrecords]

/-- A record that is not all there is not seen. -/
theorem recordsIn_of_incomplete {offset : Nat} (h : Carried decode control)
    (hoffset : offset < (localFrame control).length) :
    recordsIn decode ((localFrame control).take offset) = [] := by
  unfold recordsIn
  rw [frames_of_incomplete h.isFrame hoffset, List.filterMap_nil]

theorem controlsIn_initial (h : front <+: bytes) : controlsIn decode front <+: controlsIn decode bytes :=
  ((frames_of_initial h).filterMap _).filter _

theorem validateControl_of_isControl (h : isControl decode control = true)
    (hmessage : control.message.isSome = true) : validateControl decode control = .ok () := by
  have hbody : opaqueFrame decode control = .ok none := by
    unfold isControl at h
    split at h
    · assumption
    · cases h
  unfold validateControl
  rw [hbody]
  exact rejectIf_eq_ok.mpr (by simp [Option.isNone_eq_false_iff.mpr hmessage])

theorem not_isData_of_isControl (h : isControl decode control = true) : isData decode control = false := by
  unfold isControl at h
  unfold isData
  split at h
  · next hbody => rw [hbody]
  · cases h

theorem not_isControl_of_isData (h : isData decode control = true) : isControl decode control = false := by
  cases hcontrol : isControl decode control with
  | false => rfl
  | true => exact absurd h (by rw [not_isData_of_isControl hcontrol]; nofun)

/-! ## The sending end

An end numbers the controls that it takes and remembers, for each record it took, which receipt it waits
for. Both follow from the list of the records it has taken, which is what `Sending` says.
-/

/-- How many of the records the other end has to acknowledge. -/
def countControls (decode : EnvelopeDecoder) (records : List ControlEnvelope) : Nat :=
  (records.filter (isControl decode)).length

@[simp] theorem countControls_nil : countControls decode [] = 0 := rfl

@[simp] theorem countControls_append (more : List ControlEnvelope) :
    countControls decode (records ++ more) = countControls decode records + countControls decode more := by
  unfold countControls
  rw [List.filter_append, List.length_append]

theorem countControls_cons (control : ControlEnvelope) (records : List ControlEnvelope) :
    countControls decode (control :: records) =
      countControls decode [control] + countControls decode records := by
  rw [← countControls_append, List.singleton_append]

theorem countControls_control (h : isControl decode control = true) :
    countControls decode [control] = 1 := by
  unfold countControls
  rw [List.filter_cons_of_pos h]
  rfl

theorem countControls_data (h : isControl decode control = false) :
    countControls decode [control] = 0 := by
  unfold countControls
  rw [List.filter_cons_of_neg (by rw [h]; nofun)]
  rfl

/-- The receipt that a record waits for when `number` controls came before it. -/
def awaited (decode : EnvelopeDecoder) (number acknowledged : Nat) (control : ControlEnvelope) : Option Nat :=
  if isControl decode control then (some (number + 1)).filter (acknowledged < ·) else none

/-- The entries of records that have been taken and not yet flushed. -/
def entries (decode : EnvelopeDecoder) (acknowledged : Nat) :
    (finish number : Nat) → List ControlEnvelope → List Written
  | _, _, [] => []
  | finish, number, control :: records =>
    ⟨finish + (localFrame control).length, awaited decode number acknowledged control⟩ ::
      entries decode acknowledged (finish + (localFrame control).length)
        (number + countControls decode [control]) records

theorem entries_append {acknowledged finish number : Nat} :
    entries decode acknowledged finish number (records ++ [control]) =
      entries decode acknowledged finish number records ++
        [⟨finish + (pipeBytes records).length + (localFrame control).length,
          awaited decode (number + countControls decode records) acknowledged control⟩] := by
  induction records generalizing finish number with
  | nil => rfl
  | cons first records ih =>
      rw [List.cons_append, entries, entries, ih, List.cons_append, pipeBytes_cons, List.length_append,
        countControls_cons first records, Nat.add_assoc finish, Nat.add_assoc number]

theorem entries_answered {acknowledged finish number sequence : Nat} (h : acknowledged ≤ sequence) :
    (entries decode acknowledged finish number records).map (Bridge.answered sequence) =
      entries decode sequence finish number records := by
  induction records generalizing finish number with
  | nil => rfl
  | cons control records ih =>
      have hawaited : (awaited decode number acknowledged control).filter (sequence < ·) =
          awaited decode number sequence control := by
        unfold awaited
        split
        · rw [Option.filter_filter]
          congr 1
          funext n
          rw [← Bool.decide_and, decide_eq_decide]
          exact ⟨fun hn => hn.2, fun hn => ⟨by omega, hn⟩⟩
        · rfl
      rw [entries, entries, List.map_cons, ih, Bridge.answered, hawaited]

/-- Settling moves the front of what waits to what is flushed. -/
theorem settle_entries {acknowledged number : Nat} (records : List ControlEnvelope) (finish : Nat)
    (h : number ≤ acknowledged) :
    ∃ done rest, records = done ++ rest ∧
      Bridge.settle (entries decode acknowledged finish number records) finish =
        (entries decode acknowledged (finish + (pipeBytes done).length)
          (number + countControls decode done) rest, finish + (pipeBytes done).length) ∧
      number + countControls decode done ≤ acknowledged := by
  induction records generalizing finish number with
  | nil => exact ⟨[], [], rfl, rfl, h⟩
  | cons control records ih =>
      cases hawaited : awaited decode number acknowledged control with
      | none =>
          have hnext : number + countControls decode [control] ≤ acknowledged := by
            unfold awaited at hawaited
            split at hawaited
            · next hcontrol =>
                rw [countControls_control hcontrol]
                rw [Option.filter_eq_none_iff] at hawaited
                simpa using hawaited
            · next hcontrol => rwa [countControls_data (Bool.eq_false_iff.mpr hcontrol)]
          obtain ⟨done, rest, rfl, hsettle, hle⟩ := ih (finish + (localFrame control).length) hnext
          refine ⟨control :: done, rest, rfl, ?_, ?_⟩
          · rw [entries, hawaited, Bridge.settle, hsettle, pipeBytes_cons, List.length_append,
              countControls_cons control done, Nat.add_assoc finish, Nat.add_assoc number]
          · rwa [countControls_cons, ← Nat.add_assoc]
      | some sequence =>
          refine ⟨[], control :: records, rfl, ?_, h⟩
          rw [entries, hawaited, Bridge.settle]
          · show _ = (entries decode acknowledged finish number (control :: records), finish)
            rw [entries, hawaited]
          · nofun

/-- What waits is the rest of what was taken; every control before it is acknowledged. -/
def Waits (decode : EnvelopeDecoder) (acknowledged : Nat) (waiting : List Written) (flushed : Nat)
    (taken : List ControlEnvelope) : Prop :=
  ∃ done rest, taken = done ++ rest ∧ flushed = (pipeBytes done).length ∧
    countControls decode done ≤ acknowledged ∧
    waiting = entries decode acknowledged flushed (countControls decode done) rest

theorem Waits.settle {acknowledged flushed : Nat} {waiting : List Written}
    (h : Waits decode acknowledged waiting flushed taken) :
    Waits decode acknowledged (Bridge.settle waiting flushed).1 (Bridge.settle waiting flushed).2 taken := by
  obtain ⟨done, rest, rfl, rfl, hle, rfl⟩ := h
  obtain ⟨more, rest, rfl, hsettle, hmore⟩ := settle_entries rest _ hle
  rw [hsettle]
  refine ⟨done ++ more, rest, (List.append_assoc ..).symm, ?_, ?_, ?_⟩
  · rw [pipeBytes_append, List.length_append]
  · rwa [countControls_append]
  · rw [countControls_append]

theorem Waits.enter {acknowledged flushed : Nat} {waiting : List Written}
    (h : Waits decode acknowledged waiting flushed taken) (control : ControlEnvelope) :
    Waits decode acknowledged
      (waiting ++ [⟨(pipeBytes taken).length + (localFrame control).length,
        awaited decode (countControls decode taken) acknowledged control⟩])
      flushed (taken ++ [control]) := by
  obtain ⟨done, rest, rfl, rfl, hle, rfl⟩ := h
  refine ⟨done, rest ++ [control], List.append_assoc .., rfl, hle, ?_⟩
  rw [entries_append, pipeBytes_append, List.length_append, countControls_append]

theorem Waits.answered {acknowledged flushed sequence : Nat} {waiting : List Written}
    (h : Waits decode acknowledged waiting flushed taken) (hle : acknowledged ≤ sequence) :
    Waits decode sequence (waiting.map (Bridge.answered sequence)) flushed taken := by
  obtain ⟨done, rest, rfl, rfl, hdone, rfl⟩ := h
  exact ⟨done, rest, rfl, rfl, Nat.le_trans hdone hle, entries_answered hle⟩

/-- How an end's counters follow from the records it took from its application. -/
structure Sending (decode : EnvelopeDecoder) (b : Bridge) (taken : List ControlEnvelope) : Prop where
  carried : ∀ control ∈ taken, Carried decode control
  input : ∃ rest, b.input.received = pipeBytes taken ++ rest ∧
    (b.progress.ended = false → rest = b.frame)
  written : b.written = (pipeBytes taken).length
  counted : b.progress.written + b.uncounted = b.input.sent.length
  records : b.streamed.filterMap LinkRecord.record? = (taken.filter (isControl decode)).zipIdx 1
  sent : b.link.sentControl = countControls decode taken
  bounded : b.link.sentControl < 2 ^ 64
  acknowledged : b.link.acknowledgedControl ≤ b.link.sentControl
  datagrams : b.datagrams = taken.filter (isData decode)
  waiting : Waits decode b.link.acknowledgedControl b.waiting b.progress.flushed taken
  heartbeats : ∀ sequence response, .heartbeat sequence response ∈ b.streamed →
    0 < sequence ∧ sequence < 2 ^ 64

/-! ## The receiving end

An end owes the application the frames it has read from the stream, the first of them written in part, and
owes the other end a receipt for each control that has passed. `Flow` says that the stream between the two
holds what was sent and has not arrived yet.
-/

/-- The frames of records on their way to the application; the first is written up to `offset`. -/
def frameQueue (decode : EnvelopeDecoder) : (number offset : Nat) → List ControlEnvelope → List Pending
  | _, _, [] => []
  | number, offset, control :: records =>
    ⟨localFrame control, offset, if isControl decode control then some (number + 1) else none⟩ ::
      frameQueue decode (number + countControls decode [control]) 0 records

theorem frameQueue_append {number offset : Nat} (h : queued = [] → offset = 0) :
    frameQueue decode number offset (queued ++ [control]) = frameQueue decode number offset queued ++
      [⟨localFrame control, 0, if isControl decode control then
        some (number + countControls decode queued + 1) else none⟩] := by
  induction queued generalizing number offset with
  | nil =>
      rw [h rfl]
      rfl
  | cons first queued ih =>
      rw [List.cons_append, frameQueue, frameQueue, ih fun _ => rfl, List.cons_append,
        countControls_cons first queued, Nat.add_assoc number]

/-- What the application may already have of the first frame. -/
def begun (offset : Nat) (queued : List ControlEnvelope) : Bytes :=
  queued.head?.elim [] fun control => (localFrame control).take offset

@[simp] theorem begun_zero : begun 0 queued = [] := by
  cases queued <;> rfl

/-- How an end's pipe and receipts follow from the records that came in. -/
structure Receiving (decode : EnvelopeDecoder) (b : Bridge) (passed queued : List ControlEnvelope)
    (offset : Nat) : Prop where
  carried : ∀ control ∈ passed ++ queued, Carried decode control
  pending : b.pending = frameQueue decode (countControls decode passed) offset queued
  output : b.output.sent = pipeBytes passed ++ begun offset queued
  offset_lt : ∀ control ∈ queued.head?, offset < (localFrame control).length
  offset_eq : queued = [] → offset = 0
  received : b.link.receivedControl = countControls decode (passed ++ queued)
  receipts : ∃ count, b.streamed.filterMap LinkRecord.receipt? = List.range' 1 count ∧
    count ≤ countControls decode passed ∧ (b.progress.ended = false → count = countControls decode passed)

/-- What flows from `a` to `b`. -/
structure Flow (decode : EnvelopeDecoder) (a b : Bridge) (taken passed queued : List ControlEnvelope)
    (offset : Nat) : Prop where
  sending : Sending decode a taken
  receiving : Receiving decode b passed queued offset
  mesh : a.link.meshId = b.link.meshId
  taken_le : b.streamRead ≤ a.streamed.length
  answers_le : a.streamRead ≤ b.streamed.length
  arrived : (a.streamed.take b.streamRead).filterMap LinkRecord.record? =
    ((passed ++ queued).filter (isControl decode)).zipIdx 1
  answered : (b.streamed.take a.streamRead).filterMap LinkRecord.receipt? =
    List.range' 1 a.link.acknowledgedControl

/-- What flows from one end to the other is in order. -/
def Linked (decode : EnvelopeDecoder) (a b : Bridge) : Prop :=
  ∃ taken passed queued offset, Flow decode a b taken passed queued offset

end Peerward.Carrier
