import Peerward.Lib.Framing
import Peerward.Relay.BackboneCodec

/-!
# Records of the process-local pipe

Behind an authenticated QUIC link the application and the bridge exchange records in a codec of their
own, whose frames never leave the process. A frame is read as a record exactly when that record is
written as the frame.
-/

namespace Peerward.Carrier

open Peerward.Lib Peerward.Wire Peerward.Relay

/-- `PWLC`. -/
def LOCAL_MAGIC : Bytes := [80, 87, 76, 67]

def MAX_LOCAL_RECORD : Nat := 65535

def decodeLocal (decode : EnvelopeDecoder) (frame : Bytes) : Except WireError Record := do
  rejectIf (frame.length < 9 || 65539 < frame.length) .invalidLength
  rejectIf (announced frame + 4 ≠ frame.length || slice frame 4 8 ≠ LOCAL_MAGIC) .kindMismatch
  match decode (frame.drop 8) with
  | none => .error .malformedControl
  | some envelope =>
    rejectIf (envelope.message.isNone || envelope.encode ≠ frame.drop 8) .kindMismatch
    return .control envelope

def encodeLocal : Record → Except WireError Bytes
  | .control envelope =>
    let bytes := envelope.encode
    let length := bytes.length + 4
    if envelope.message.isNone || MAX_LOCAL_RECORD < length then .error .invalidLength
    else .ok (toBE 4 length ++ LOCAL_MAGIC ++ bytes)
  | _ => .error .kindMismatch

/-- The bytes of a control record in the pipe. -/
def localFrame (control : ControlEnvelope) : Bytes :=
  toBE 4 (control.encode.length + 4) ++ LOCAL_MAGIC ++ control.encode

variable {decode : EnvelopeDecoder} {frame : Bytes} {control : ControlEnvelope}

theorem encodeLocal_eq_ok : encodeLocal (.control control) = .ok frame ↔
    control.message.isSome = true ∧ control.encode.length + 4 ≤ MAX_LOCAL_RECORD ∧
      frame = localFrame control := by
  unfold encodeLocal localFrame
  dsimp only
  cases hmessage : control.message with
  | none => exact ⟨nofun, fun h => nomatch h.1⟩
  | some message =>
      by_cases hlong : MAX_LOCAL_RECORD < control.encode.length + 4
      · rw [if_pos (by simpa using hlong)]
        exact ⟨nofun, fun h => absurd h.2.1 (Nat.not_le.mpr hlong)⟩
      · rw [if_neg (by simpa using hlong)]
        exact ⟨fun h => ⟨rfl, Nat.not_lt.mp hlong, (Except.ok.inj h).symm⟩, fun h => by rw [h.2.2]⟩

theorem length_localFrame : (localFrame control).length = control.encode.length + 8 := by
  unfold localFrame
  rw [List.length_append, List.length_append, length_toBE]
  show 4 + 4 + control.encode.length = _
  omega

theorem drop_localFrame : (localFrame control).drop 8 = control.encode := by
  unfold localFrame
  exact List.drop_left' (by rw [List.length_append, length_toBE]; rfl)

theorem announced_localFrame (h : control.encode.length + 4 ≤ MAX_LOCAL_RECORD) :
    announced (localFrame control) = control.encode.length + 4 := by
  unfold announced localFrame
  unfold MAX_LOCAL_RECORD at h
  rw [List.append_assoc, List.take_left' (length_toBE _ _), ofBE_toBE_of_lt (by omega)]

/-- What is written is one frame. -/
theorem isFrame_localFrame (h : control.encode.length + 4 ≤ MAX_LOCAL_RECORD) :
    IsFrame MAX_LOCAL_RECORD (localFrame control) := by
  refine ⟨?_, ?_, ?_⟩ <;> rw [announced_localFrame h]
  · omega
  · exact h
  · rw [length_localFrame]

/-- **The local codec is canonical.** -/
theorem decodeLocal_eq_ok : decodeLocal decode frame = .ok (.control control) ↔
    encodeLocal (.control control) = .ok frame ∧ decode control.encode = some control := by
  rw [encodeLocal_eq_ok]
  constructor
  · intro h
    obtain ⟨_, hlong, h⟩ := bind_eq_ok.mp h
    obtain ⟨_, hhead, h⟩ := bind_eq_ok.mp h
    replace hlong := rejectIf_eq_ok.mp hlong
    replace hhead := rejectIf_eq_ok.mp hhead
    simp only [Bool.or_eq_false_iff, decide_eq_false_iff_not, not_not, not_lt] at hlong hhead
    split at h
    · cases h
    · next envelope hdecode =>
        obtain ⟨_, hbody, h⟩ := bind_eq_ok.mp h
        replace hbody := rejectIf_eq_ok.mp hbody
        simp only [Bool.or_eq_false_iff, decide_eq_false_iff_not, not_not] at hbody
        cases h
        have hlength := congrArg List.length hbody.2
        rw [List.length_drop] at hlength
        refine ⟨⟨?_, by unfold MAX_LOCAL_RECORD; omega, ?_⟩, by rw [hbody.2, hdecode]⟩
        · cases hmessage : control.message with
          | none => rw [hmessage] at hbody; cases hbody.1
          | some message => rfl
        · have hinitial : toBE 4 (control.encode.length + 4) = frame.take 4 := by
            have htake : (frame.take 4).length = 4 := by
              rw [List.length_take]
              omega
            have hannounced : control.encode.length + 4 = ofBE (frame.take 4) := by
              have hhead := hhead.1
              unfold announced at hhead
              omega
            have hround := toBE_ofBE (frame.take 4)
            rw [htake] at hround
            rw [hannounced, hround]
          have hmagic : (frame.drop 4).take 4 = LOCAL_MAGIC := hhead.2
          have hrest : (frame.drop 4).drop 4 = control.encode := by
            rw [List.drop_drop, hbody.2]
          unfold localFrame
          rw [hinitial, ← hmagic, ← hrest, List.append_assoc, List.take_append_drop,
            List.take_append_drop]
  · rintro ⟨⟨hmessage, hlong, rfl⟩, hdecode⟩
    have hpositive := List.length_pos_iff.mpr (ControlEnvelope.encode_ne_nil hmessage)
    unfold MAX_LOCAL_RECORD at hlong
    refine bind_eq_ok.mpr ⟨(), rejectIf_eq_ok.mpr ?_, bind_eq_ok.mpr ⟨(), rejectIf_eq_ok.mpr ?_, ?_⟩⟩
    · rw [length_localFrame, Bool.or_eq_false_iff, decide_eq_false_iff_not, decide_eq_false_iff_not]
      omega
    · have hmagic : slice (localFrame control) 4 8 = LOCAL_MAGIC := by
        unfold localFrame
        rw [List.append_assoc, slice, List.drop_left' (length_toBE _ _)]
        rfl
      rw [announced_localFrame hlong, length_localFrame, hmagic]
      simp
    · rw [drop_localFrame, hdecode]
      exact bind_eq_ok.mpr ⟨(), rejectIf_eq_ok.mpr (by simp [hmessage]), rfl⟩

end Peerward.Carrier
