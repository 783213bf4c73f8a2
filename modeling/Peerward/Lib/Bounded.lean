import Peerward.Lib.Bytes
import Peerward.Lib.Decoder

/-!
# Reads that may leave the bytes

Indexing a slice outside its bounds stops the program. A decoder written with these reads has that as an
outcome of its own, beside the errors it returns; that it never happens is then a statement about the
decoder.
-/

namespace Peerward.Lib.Bounded

variable {E : Type} {A : Type}

/-- What stops a read. -/
inductive Stop (E : Type) where
  | refused (error : E)
  /-- An index or a range outside the bytes. -/
  | outOfBounds
  deriving DecidableEq

/-- A step that reads no bytes. -/
def checked : Except E A → Except (Stop E) A := Except.mapError .refused

/-- `bytes[index]`. -/
def byteAt (bytes : Bytes) (index : Nat) : Except (Stop E) UInt8 :=
  match bytes[index]? with
  | some b => .ok b
  | none => .error .outOfBounds

/-- `bytes[start..stop]`. -/
def sliceAt (bytes : Bytes) (start stop : Nat) : Except (Stop E) Bytes :=
  if start ≤ stop ∧ stop ≤ bytes.length then .ok (slice bytes start stop) else .error .outOfBounds

variable {bytes : Bytes}

theorem byteAt_of_lt {index : Nat} (h : index < bytes.length) :
    (byteAt bytes index : Except (Stop E) UInt8) = .ok (bytes.getD index 0) := by
  unfold byteAt
  rw [List.getD_eq_getElem?_getD, List.getElem?_eq_getElem h]
  rfl

theorem sliceAt_of_le {start stop : Nat} (h : start ≤ stop) (hstop : stop ≤ bytes.length) :
    (sliceAt bytes start stop : Except (Stop E) Bytes) = .ok (slice bytes start stop) :=
  if_pos ⟨h, hstop⟩

theorem sliceAt_rest {start : Nat} (h : start ≤ bytes.length) :
    (sliceAt bytes start bytes.length : Except (Stop E) Bytes) = .ok (bytes.drop start) := by
  rw [sliceAt_of_le h (Nat.le_refl _), slice, ← List.length_drop, List.take_length]

theorem checked_bind {B : Type} (first : Except E A) (next : A → Except E B) :
    checked (first >>= next) = checked first >>= fun a => checked (next a) := by
  cases first <;> rfl

theorem checked_ne_outOfBounds (result : Except E A) : checked result ≠ .error .outOfBounds := by
  cases result <;> exact nofun

@[simp] theorem guard_false {error : E} {next : Unit → Except (Stop E) A} :
    (checked (rejectIf false error) >>= next) = next () := rfl

@[simp] theorem guard_true {error : E} {next : Unit → Except (Stop E) A} :
    (checked (rejectIf true error) >>= next) = .error (.refused error) := rfl

/-- What comes behind a check may rely on it. -/
theorem guard_congr {bad : Bool} {error : E} {next next' : Except (Stop E) A}
    (h : bad = false → next = next') :
    (checked (rejectIf bad error) >>= fun _ => next) =
      (checked (rejectIf bad error) >>= fun _ => next') := by
  cases bad with
  | true => rfl
  | false => exact h rfl

theorem checked_guard {bad : Bool} {error : E} {next : Except E A} {next' : Except (Stop E) A}
    (h : bad = false → next' = checked next) :
    (checked (rejectIf bad error) >>= fun _ => next') =
      checked (rejectIf bad error >>= fun _ => next) := by
  rw [checked_bind]
  exact guard_congr h

end Peerward.Lib.Bounded
