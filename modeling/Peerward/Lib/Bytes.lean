import Mathlib

/-!
# Big-endian byte strings

`to_be_bytes` and `from_be_bytes` at any width, over plain lists of bytes. The two are inverse to
each other in both directions, which is all that the codecs built on them need.
-/

namespace Peerward.Lib

/-- Rust's `Vec<u8>` and `&[u8]`. -/
abbrev Bytes := List UInt8

/-- The number a big-endian byte string spells. -/
def ofBE (bytes : Bytes) : Nat := bytes.foldl (fun acc b => acc * 256 + b.toNat) 0

/-- The last `width` big-endian digits of `n`, in base 256. -/
def toBE : (width : Nat) → (n : Nat) → Bytes
  | 0, _ => []
  | width + 1, n => toBE width (n / 256) ++ [UInt8.ofNat n]

/-! ## Reading -/

@[simp] theorem ofBE_nil : ofBE [] = 0 := rfl

@[simp] theorem ofBE_concat (bytes : Bytes) (b : UInt8) :
    ofBE (bytes ++ [b]) = ofBE bytes * 256 + b.toNat := by
  simp [ofBE]

theorem ofBE_lt (bytes : Bytes) : ofBE bytes < 256 ^ bytes.length := by
  induction bytes using List.reverseRecOn with
  | nil => simp
  | append_singleton bytes b ih =>
      have hb := b.toNat_lt
      rw [ofBE_concat, List.length_append, List.length_singleton, pow_succ]
      omega

/-! ## Writing -/

@[simp] theorem length_toBE (width n : Nat) : (toBE width n).length = width := by
  induction width generalizing n with
  | zero => rfl
  | succ width ih => simp [toBE, ih]

/-- Reading back what was written loses only the digits that did not fit. -/
theorem ofBE_toBE (width n : Nat) : ofBE (toBE width n) = n % 256 ^ width := by
  induction width generalizing n with
  | zero => simp [toBE, Nat.mod_one]
  | succ width ih =>
      have hdigit : (UInt8.ofNat n).toNat = n % 256 := by simp
      rw [toBE, ofBE_concat, ih, hdigit, pow_succ, Nat.mul_comm (256 ^ width) 256, Nat.mod_mul]
      omega

theorem ofBE_toBE_of_lt {width n : Nat} (h : n < 256 ^ width) : ofBE (toBE width n) = n := by
  rw [ofBE_toBE, Nat.mod_eq_of_lt h]

/-- Writing back what was read reproduces the bytes. -/
theorem toBE_ofBE (bytes : Bytes) : toBE bytes.length (ofBE bytes) = bytes := by
  induction bytes using List.reverseRecOn with
  | nil => rfl
  | append_singleton bytes b ih =>
      have hb : b.toNat < 256 := b.toNat_lt
      have hdiv : (ofBE bytes * 256 + b.toNat) / 256 = ofBE bytes := by omega
      have hmod : UInt8.ofNat (ofBE bytes * 256 + b.toNat) = b := by
        apply UInt8.toNat_inj.mp
        simp only [UInt8.toNat_ofNat']
        omega
      rw [List.length_append, List.length_singleton, toBE, ofBE_concat, hdiv, ih, hmod]

theorem toBE_ofBE_of_length {n : Nat} {bytes : Bytes} (h : bytes.length = n) : toBE n (ofBE bytes) = bytes := by
  rw [← h, toBE_ofBE]

/-! ## Slices and chunks -/

/-- `&bytes[start..stop]`. -/
def slice (bytes : Bytes) (start stop : Nat) : Bytes := (bytes.drop start).take (stop - start)

/-- `bytes[start..start + body.len()].copy_from_slice(body)`. -/
def overwrite (bytes : Bytes) (start : Nat) (body : Bytes) : Bytes :=
  bytes.take start ++ body ++ bytes.drop (start + body.length)

/-- `usize::div_ceil`. -/
def divCeil (a b : Nat) : Nat := (a + b - 1) / b

/-- `slice::chunks`: consecutive slices of `stride` bytes, the last one possibly shorter. -/
def chunks (bytes : Bytes) (stride : Nat) : List Bytes :=
  (List.range (divCeil bytes.length stride)).map fun index =>
    slice bytes (index * stride) (index * stride + stride)

theorem getElem?_slice (bytes : Bytes) (start stop j : Nat) :
    (slice bytes start stop)[j]? = if start + j < stop then bytes[start + j]? else none := by
  rw [slice, List.getElem?_take, List.getElem?_drop]
  by_cases h : start + j < stop
  · rw [if_pos (by omega), if_pos h]
  · rw [if_neg (by omega), if_neg h]

theorem length_slice (bytes : Bytes) (start stop : Nat) :
    (slice bytes start stop).length = min stop bytes.length - start := by
  rw [slice, List.length_take, List.length_drop]
  omega

/-- A field at a known place. -/
theorem slice_middle {bytes before field after : Bytes} {start stop : Nat}
    (h : bytes = before ++ (field ++ after)) (hstart : before.length = start)
    (hstop : start + field.length = stop) : slice bytes start stop = field := by
  subst h hstart hstop
  rw [slice, List.drop_left, Nat.add_sub_cancel_left, List.take_left]

/-- A field at the front of what is left to read. -/
theorem slice_of_drop {bytes field rest : Bytes} {start stop : Nat}
    (h : bytes.drop start = field ++ rest) (hstop : start + field.length = stop) :
    slice bytes start stop = field := by
  rw [slice, h, ← hstop, Nat.add_sub_cancel_left, List.take_left]

theorem drop_of_drop {bytes field rest : Bytes} {start stop : Nat}
    (h : bytes.drop start = field ++ rest) (hstop : start + field.length = stop) :
    bytes.drop stop = rest := by
  rw [← hstop, ← List.drop_drop, h, List.drop_left]

theorem slice_append_left {init : Bytes} {start stop : Nat} (h : stop ≤ init.length) (rest : Bytes) :
    slice (init ++ rest) start stop = slice init start stop := by
  refine List.ext_getElem? fun j => ?_
  rw [getElem?_slice, getElem?_slice]
  by_cases hj : start + j < stop
  · rw [if_pos hj, if_pos hj, List.getElem?_append_left (by omega)]
  · rw [if_neg hj, if_neg hj]

/-- The last field. -/
theorem slice_last {before field : Bytes} {start stop : Nat} (hstart : before.length = start)
    (hstop : start + field.length = stop) : slice (before ++ field) start stop = field :=
  slice_middle (congrArg (before ++ ·) (List.append_nil field).symm) hstart hstop

theorem length_overwrite {bytes body : Bytes} {start : Nat}
    (h : start + body.length ≤ bytes.length) : (overwrite bytes start body).length = bytes.length := by
  simp only [overwrite, List.length_append, List.length_take, List.length_drop]
  omega

theorem getElem?_overwrite {bytes body : Bytes} {start : Nat}
    (h : start + body.length ≤ bytes.length) (j : Nat) :
    (overwrite bytes start body)[j]? =
      if start ≤ j ∧ j < start + body.length then body[j - start]? else bytes[j]? := by
  have hstart : (bytes.take start).length = start := by
    rw [List.length_take]
    omega
  by_cases hlow : j < start
  · rw [if_neg (by omega), overwrite, List.append_assoc, List.getElem?_append_left (by omega),
      List.getElem?_take, if_pos hlow]
  · rw [overwrite, List.append_assoc, List.getElem?_append_right (by omega), hstart]
    by_cases hhigh : j < start + body.length
    · rw [if_pos (by omega), List.getElem?_append_left (by omega)]
    · rw [if_neg (by omega), List.getElem?_append_right (by omega), List.getElem?_drop]
      congr 1
      omega

/-- The chunk that holds a byte is its position divided by the stride. -/
theorem lt_divCeil_iff {a b i : Nat} (hb : 0 < b) : i < divCeil a b ↔ i * b < a := by
  rw [divCeil, Nat.lt_div_iff_mul_lt hb]
  omega

theorem length_chunks (bytes : Bytes) (stride : Nat) :
    (chunks bytes stride).length = divCeil bytes.length stride := by
  simp [chunks]

/-- Reading on from a known place. -/
theorem drop_eq_slice_append (bytes : Bytes) {start stop : Nat} (h : start ≤ stop) :
    bytes.drop start = slice bytes start stop ++ bytes.drop stop := by
  have hstop : stop = start + (stop - start) := by omega
  rw [slice, hstop, Nat.add_sub_cancel_left, ← List.drop_drop, List.take_append_drop]

theorem drop_eq_getD_cons (bytes : Bytes) {start : Nat} (h : start < bytes.length) :
    bytes.drop start = bytes.getD start 0 :: bytes.drop (start + 1) := by
  rw [List.drop_eq_getElem_cons h, List.getD_eq_getElem _ _ h]

/-- Consecutive slices put together. -/
theorem flatten_slices (bytes : Bytes) (stride count : Nat) :
    ((List.range count).map fun i => slice bytes (i * stride) (i * stride + stride)).flatten =
      bytes.take (count * stride) := by
  induction count with
  | zero => simp
  | succ count ih =>
      rw [List.range_succ, List.map_append, List.flatten_append, ih, List.map_singleton,
        List.flatten_singleton, slice, Nat.add_sub_cancel_left, Nat.add_mul, Nat.one_mul,
        List.take_add]

theorem flatten_chunks (bytes : Bytes) {stride : Nat} (h : 0 < stride) :
    (chunks bytes stride).flatten = bytes := by
  rw [chunks, flatten_slices, List.take_of_length_le]
  have hnot : ¬ divCeil bytes.length stride < divCeil bytes.length stride := Nat.lt_irrefl _
  rw [lt_divCeil_iff h] at hnot
  omega

/-- Pieces of one length are the chunks of what they make up. -/
theorem chunks_flatMap {α : Type} {f : α → Bytes} {stride : Nat} (h : 0 < stride) {l : List α}
    (hl : ∀ a ∈ l, (f a).length = stride) : chunks (l.flatMap f) stride = l.map f := by
  induction l with
  | nil => simp [chunks, divCeil, Nat.div_eq_of_lt (Nat.sub_lt h Nat.one_pos)]
  | cons a l ih =>
      have ha := hl a List.mem_cons_self
      have hceil : divCeil (f a ++ l.flatMap f).length stride =
          divCeil (l.flatMap f).length stride + 1 := by
        rw [divCeil, divCeil, List.length_append, ha, ← Nat.add_div_right _ h]
        congr 1
        omega
      rw [List.flatMap_cons, List.map_cons, ← ih fun b hb => hl b (List.mem_cons_of_mem a hb), chunks,
        chunks, hceil, List.range_succ_eq_map, List.map_cons, List.map_map]
      congr 1
      · rw [slice, Nat.zero_mul, Nat.zero_add, List.drop_zero, Nat.sub_zero, ← ha, List.take_left]
      · refine List.map_congr_left fun i _ => ?_
        have hstart : (i + 1) * stride = (f a).length + i * stride := by
          rw [ha, Nat.add_mul, Nat.one_mul, Nat.add_comm]
        simp only [Function.comp_apply, Nat.succ_eq_add_one, slice, Nat.add_sub_cancel_left]
        rw [hstart, ← List.drop_drop, List.drop_left]

end Peerward.Lib
