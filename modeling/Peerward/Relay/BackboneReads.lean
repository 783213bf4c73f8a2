import Peerward.Lib.Bounded
import Peerward.Relay.BackboneCodec

/-!
# Where the backbone decoder reads

The decoder again, with every index and every range checked against the bytes: a read outside them would
stop the Relay, and is an outcome of its own here. It never happens (`payloadAt_eq`).
-/

namespace Peerward.Relay.Checked

open Peerward.Lib Peerward.Lib.Bounded Peerward.Wire
open Peerward.Types (Id)

/-- How a read ends. -/
abbrev Stop : Type := Bounded.Stop RelayError

/-! ## The decoder -/

variable (decode : EnvelopeDecoder)

def controlBodyAt (body : Bytes) : Except Stop RoutedControl := do
  checked (rejectIf (body.length < 44) .malformedForwarded)
  let source ← checked (readId (← sliceAt body 0 16))
  let destination ← checked (readId (← sliceAt body 16 32))
  let generation := i64Of (← sliceAt body 32 40)
  let length := ofBE (← sliceAt body 40 44)
  checked (rejectIf (MAX_BACKBONE_BODY < length || body.length ≠ 44 + length) .malformedForwarded)
  match decode (← sliceAt body 44 body.length) with
  | none => .error (.refused (.wire .malformedControl))
  | some envelope => return { source, destination, generation, envelope }

/-- A field of an announcement. -/
def orMismatch {α : Type} : Option α → Except Stop α
  | some value => .ok value
  | none => .error (.refused (.wire .kindMismatch))

def presenceAt (body : Bytes) : Except Stop PresenceAnnouncement := do
  checked (rejectIf (body.length ≠ PRESENCE_WIRE_LENGTH) (.wire .kindMismatch))
  checked (rejectIf ((← byteAt body 0) ≠ PRESENCE_WIRE_VERSION) (.wire .kindMismatch))
  checked (rejectIf ((← byteAt body 1) > 1) (.wire .kindMismatch))
  let peerId ← orMismatch (Id.fromSlice (← sliceAt body 2 18))
  let relayId ← orMismatch (Id.fromSlice (← sliceAt body 18 34))
  let attachmentId ← orMismatch (Id.fromSlice (← sliceAt body 34 50))
  let role ← orMismatch (PresenceRole.ofCode (← byteAt body 50))
  let generation := i64Of (← sliceAt body 51 59)
  let leaseDeadline ← orMismatch (OffsetDateTime.fromUnixTimestamp (i64Of (← sliceAt body 59 67)))
  return {
    entry := { peerId, relayId, attachmentId, role, generation, leaseDeadline }
    released := (← byteAt body 1) = 1 }

def routedPayloadAt (body : Bytes) : Except Stop BackbonePayload := do
  checked (rejectIf (body.length < 47) .malformedForwarded)
  let kind ← byteAt body 0
  let origin ← checked (readId (← sliceAt body 1 17))
  let destination ← checked (readDestination (← sliceAt body 17 33))
  let topologyRevision := ofBE (← sliceAt body 33 41)
  let hopLimit := (← byteAt body 41).toNat
  let visitedCount := (← byteAt body 42).toNat
  checked (rejectIf (!(1 ≤ hopLimit && hopLimit ≤ 4) || !(1 ≤ visitedCount && visitedCount ≤ 4))
    .malformedForwarded)
  let routeLength := 43 + visitedCount * 16 + 4
  checked (rejectIf (body.length < routeLength) .malformedForwarded)
  let visited ← checked ((chunks (← sliceAt body 43 (43 + visitedCount * 16)) 16).mapM readId)
  checked (rejectIf (¬ visited.Nodup) .malformedForwarded)
  let lengthOffset := 43 + visitedCount * 16
  let payloadLength := ofBE (← sliceAt body lengthOffset (lengthOffset + 4))
  checked (rejectIf (MAX_BACKBONE_BODY < payloadLength ||
    body.length ≠ routeLength + payloadLength) .malformedForwarded)
  let route := { origin, destination, topologyRevision, hopLimit, visited }
  let payload ← sliceAt body routeLength body.length
  match kind, destination with
  | 1, some _ => return .routedControl (← controlBodyAt decode payload) route
  | 2, none => return .routedPresence (← presenceAt payload) route
  | _, _ => .error (.refused .malformedForwarded)

def payloadAt (body : Bytes) : Except Stop BackbonePayload :=
  match body with
  | [] => .error (.refused .malformedForwarded)
  | tag :: _ => do
    if tag = 2 then return .control (← controlBodyAt decode (← sliceAt body 1 body.length))
    else if tag = 3 then routedPayloadAt decode (← sliceAt body 1 body.length)
    else .error (.refused .malformedForwarded)

/-! ## Every read is inside

A read outside the bytes is an error of its own here. Every branch of the decoder has checked the length it
needs before it reads.
-/

variable {decode} {body : Bytes}

theorem controlBodyAt_eq : controlBodyAt decode body = checked (decodeControlBody decode body) := by
  unfold controlBodyAt decodeControlBody
  refine checked_guard fun hlength => ?_
  rw [decide_eq_false_iff_not, Nat.not_lt] at hlength
  rw [sliceAt_of_le (by omega) (by omega), sliceAt_of_le (by omega) (by omega),
    sliceAt_of_le (by omega) (by omega), sliceAt_of_le (by omega) (by omega), sliceAt_rest hlength]
  simp only [ok_bind, checked_bind]
  refine bind_congr fun source => bind_congr fun destination => bind_congr fun _ => ?_
  cases decode (body.drop 44) <;> rfl

theorem presenceAt_eq : presenceAt body = checked (decodePresence body) := by
  have hmodel : decodePresence body =
      (rejectIf (body.length ≠ PRESENCE_WIRE_LENGTH) (.wire .kindMismatch) >>= fun _ =>
        rejectIf (body.getD 0 0 ≠ PRESENCE_WIRE_VERSION) (.wire .kindMismatch) >>= fun _ =>
        rejectIf (body.getD 1 0 > 1) (.wire .kindMismatch) >>= fun _ =>
        (parsePresence body).elim (.error (.wire .kindMismatch)) .ok) := by
    unfold decodePresence
    generalize parsePresence body = parsed
    generalize decide (body.length ≠ PRESENCE_WIRE_LENGTH) = wrongLength
    generalize decide (body.getD 0 0 ≠ PRESENCE_WIRE_VERSION) = wrongVersion
    generalize decide (body.getD 1 0 > 1) = wrongFlag
    cases wrongLength <;> cases wrongVersion <;> cases wrongFlag <;> cases parsed <;> rfl
  rw [hmodel]
  unfold presenceAt
  refine checked_guard fun hlength => ?_
  rw [decide_eq_false_iff_not, not_not] at hlength
  replace hlength : body.length = 67 := hlength
  rw [byteAt_of_lt (show 0 < body.length by omega), byteAt_of_lt (show 1 < body.length by omega)]
  simp only [ok_bind]
  refine checked_guard fun _ => checked_guard fun _ => ?_
  rw [sliceAt_of_le (by omega) (by omega), sliceAt_of_le (by omega) (by omega),
    sliceAt_of_le (by omega) (by omega), sliceAt_of_le (by omega) (by omega),
    sliceAt_of_le (by omega) (by omega), byteAt_of_lt (show 50 < body.length by omega)]
  unfold parsePresence
  simp only [ok_bind]
  cases Id.fromSlice (slice body 2 18) with
  | none => rfl
  | some peerId =>
  cases Id.fromSlice (slice body 18 34) with
  | none => rfl
  | some relayId =>
  cases Id.fromSlice (slice body 34 50) with
  | none => rfl
  | some attachmentId =>
  cases PresenceRole.ofCode (body.getD 50 0) with
  | none => rfl
  | some role =>
  cases OffsetDateTime.fromUnixTimestamp (i64Of (slice body 59 67)) <;> rfl

theorem routedPayloadAt_eq :
    routedPayloadAt decode body = checked (decodeRoutedPayload decode body) := by
  unfold routedPayloadAt decodeRoutedPayload
  refine checked_guard fun hlength => ?_
  rw [decide_eq_false_iff_not, Nat.not_lt] at hlength
  rw [byteAt_of_lt (show 0 < body.length by omega), byteAt_of_lt (show 41 < body.length by omega),
    byteAt_of_lt (show 42 < body.length by omega), sliceAt_of_le (by omega) (by omega),
    sliceAt_of_le (by omega) (by omega), sliceAt_of_le (by omega) (by omega)]
  unfold decodeRoute
  simp only [ok_bind, bind_assoc, checked_bind, routeLength, visitedCount]
  refine bind_congr fun origin => bind_congr fun destination => guard_congr fun _ =>
    guard_congr fun hroute => ?_
  rw [decide_eq_false_iff_not, Nat.not_lt] at hroute
  rw [sliceAt_of_le (by omega) (by omega), sliceAt_of_le (by omega) (by omega), sliceAt_rest hroute]
  simp only [ok_bind, Nat.add_sub_cancel]
  refine bind_congr fun visited => guard_congr fun _ => guard_congr fun _ => ?_
  generalize body.getD 0 0 = kind
  by_cases hcontrol : kind = 1
  · subst hcontrol
    cases destination with
    | none => rfl
    | some destination =>
        dsimp only
        rw [controlBodyAt_eq]
        cases decodeControlBody decode (body.drop _) <;> rfl
  · by_cases hpresence : kind = 2
    · subst hpresence
      cases destination with
      | none =>
          dsimp only
          rw [presenceAt_eq]
          cases decodePresence (body.drop _) <;> rfl
      | some destination => rfl
    · -- neither kind on either side
      simp only [hcontrol, imp_false, IsEmpty.forall_iff, implies_true, hpresence]
      rfl

/-- **No read is outside the bytes.** -/
theorem payloadAt_eq (decode : EnvelopeDecoder) (body : Bytes) :
    payloadAt decode body = checked (decodeBackbonePayload decode body) := by
  unfold payloadAt decodeBackbonePayload
  split
  · rfl
  · next tag rest =>
    rw [sliceAt_rest (by simp)]
    simp only [ok_bind, List.drop_succ_cons, List.drop_zero, controlBodyAt_eq, routedPayloadAt_eq]
    by_cases htwo : tag = 2
    · subst htwo
      rw [if_pos rfl]
      cases hbody : decodeControlBody decode rest <;> simp only [hbody] <;> rfl
    · by_cases hthree : tag = 3
      · subst hthree
        rfl
      · rw [if_neg htwo, if_neg hthree]
        split
        · next heq => exact (htwo (List.cons.inj heq).1).elim
        · next heq => exact (hthree (List.cons.inj heq).1).elim
        · rfl

end Peerward.Relay.Checked
