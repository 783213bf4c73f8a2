import Peerward.Lib.Bytes

/-!
# Length-prefixed frames in a stream of bytes

A frame is a prefix of four bytes, the length of a body that is neither empty nor longer than a bound,
and the body. Reading a stream frame by frame does not depend on how the stream was cut into pieces.
-/

namespace Peerward.Lib

variable {limit : Nat} {bytes front back : Bytes}

/-- The length that a prefix announces. -/
def announced (bytes : Bytes) : Nat := ofBE (bytes.take 4)

def IsFrame (limit : Nat) (bytes : Bytes) : Prop :=
  0 < announced bytes ∧ announced bytes ≤ limit ∧ bytes.length = announced bytes + 4

instance : Decidable (IsFrame limit bytes) := inferInstanceAs (Decidable (_ ∧ _ ∧ _))

/-- The first frame and what follows it, once all of its bytes are there. -/
def nextFrame (limit : Nat) (bytes : Bytes) : Option (Bytes × Bytes) :=
  if IsFrame limit (bytes.take (announced bytes + 4)) then
    some (bytes.take (announced bytes + 4), bytes.drop (announced bytes + 4))
  else none

def framesFrom (limit : Nat) : (fuel : Nat) → Bytes → List Bytes
  | 0, _ => []
  | fuel + 1, bytes => match nextFrame limit bytes with
    | none => []
    | some (frame, rest) => frame :: framesFrom limit fuel rest

/-- The complete frames of a stream, in order. -/
def frames (limit : Nat) (bytes : Bytes) : List Bytes := framesFrom limit bytes.length bytes

theorem announced_append (h : 4 ≤ front.length) : announced (front ++ back) = announced front := by
  unfold announced
  rw [List.take_append_of_le_length h]

theorem IsFrame.four_le (h : IsFrame limit bytes) : 4 ≤ bytes.length := by
  obtain ⟨-, -, hlength⟩ := h
  omega

theorem IsFrame.announced_append (h : IsFrame limit front) :
    announced (front ++ back) + 4 = front.length := by
  rw [Lib.announced_append h.four_le]
  exact h.2.2.symm

theorem nextFrame_of_isFrame (h : IsFrame limit front) :
    nextFrame limit (front ++ back) = some (front, back) := by
  unfold nextFrame
  rw [h.announced_append, List.take_left, List.drop_left, if_pos h]

theorem nextFrame_eq_some {frame rest : Bytes} (h : nextFrame limit bytes = some (frame, rest)) :
    IsFrame limit frame ∧ bytes = frame ++ rest := by
  unfold nextFrame at h
  split at h
  · next hframe =>
      cases h
      exact ⟨hframe, (List.take_append_drop _ _).symm⟩
  · cases h

/-- Enough fuel is any fuel not below the length. -/
theorem framesFrom_eq {fuel : Nat} (h : bytes.length ≤ fuel) :
    framesFrom limit fuel bytes = framesFrom limit bytes.length bytes := by
  induction fuel using Nat.strong_induction_on generalizing bytes with
  | _ fuel ih =>
      cases fuel with
      | zero =>
          rw [Nat.le_zero.mp h]
      | succ fuel =>
          cases hnext : nextFrame limit bytes with
          | none =>
              have hnone : ∀ n, framesFrom limit n bytes = [] := by
                intro n
                cases n with
                | zero => rfl
                | succ n => simp only [framesFrom, hnext]
              rw [hnone, hnone]
          | some next =>
              obtain ⟨frame, rest⟩ := next
              obtain ⟨hframe, rfl⟩ := nextFrame_eq_some hnext
              have hlong := hframe.four_le
              rw [List.length_append] at h
              have hlength : (frame ++ rest).length = frame.length - 1 + rest.length + 1 := by
                rw [List.length_append]
                omega
              rw [hlength]
              simp only [framesFrom, hnext]
              rw [ih fuel (Nat.lt_succ_self _) (by omega), ← ih (frame.length - 1 + rest.length) (by omega)
                (by omega)]

/-- A frame at the front of a stream is its first frame. -/
theorem frames_append (h : IsFrame limit front) :
    frames limit (front ++ back) = front :: frames limit back := by
  have hlong := h.four_le
  have hlength : (front ++ back).length = front.length - 1 + back.length + 1 := by
    rw [List.length_append]
    omega
  unfold frames
  rw [hlength]
  simp only [framesFrom, nextFrame_of_isFrame h]
  rw [framesFrom_eq (by omega)]

theorem frames_flatten {parts : List Bytes} (h : ∀ frame ∈ parts, IsFrame limit frame) :
    frames limit (parts.flatten ++ back) = parts ++ frames limit back := by
  induction parts with
  | nil => rfl
  | cons frame parts ih =>
      rw [List.flatten_cons, List.append_assoc, frames_append (h frame (List.mem_cons_self ..)),
        ih fun part hpart => h part (List.mem_cons_of_mem _ hpart), List.cons_append]

/-- A frame that is not all there is not read. -/
theorem frames_of_incomplete {count : Nat} (h : IsFrame limit bytes) (hcount : count < bytes.length) :
    frames limit (bytes.take count) = [] := by
  unfold frames
  cases hlength : (bytes.take count).length with
  | zero => rfl
  | succ fuel =>
      have hnext : nextFrame limit (bytes.take count) = none := by
        cases hnext : nextFrame limit (bytes.take count) with
        | none => rfl
        | some next =>
            obtain ⟨hframe, hbytes⟩ := nextFrame_eq_some hnext
            have hsame : bytes = next.1 ++ (next.2 ++ bytes.drop count) := by
              rw [← List.append_assoc, ← hbytes, List.take_append_drop]
            have hall : next.1.length = bytes.length := by
              rw [h.2.2]
              conv_rhs => rw [hsame]
              exact hframe.announced_append.symm
            have hshort := congrArg List.length hbytes
            rw [List.length_append, List.length_take] at hshort
            omega
      simp only [framesFrom, hnext]

/-- More of a stream is more frames. -/
theorem frames_of_initial (h : front <+: bytes) : frames limit front <+: frames limit bytes := by
  obtain ⟨back, rfl⟩ := h
  induction hlength : front.length using Nat.strong_induction_on generalizing front with
  | _ n ih =>
      cases hnext : nextFrame limit front with
      | none =>
          have hnil : frames limit front = [] := by
            unfold frames
            cases front.length with
            | zero => rfl
            | succ fuel => simp only [framesFrom, hnext]
          rw [hnil]
          exact List.nil_prefix
      | some next =>
          obtain ⟨hframe, rfl⟩ := nextFrame_eq_some hnext
          have hlong := hframe.four_le
          rw [List.length_append] at hlength
          rw [List.append_assoc, frames_append hframe, frames_append hframe, List.prefix_cons_inj]
          exact ih next.2.length (by omega) rfl

end Peerward.Lib
