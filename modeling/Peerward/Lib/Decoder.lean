import Peerward.Lib.Bytes

/-!
# Cursor decoders

A decoder consumes bytes from the front of its input or fails; every failure is the same one, given
as a parameter. What a codec has to show about its decoder is `Reads`: from the bytes the encoder
wrote, whatever follows them, the decoder gets the value back and stops where the encoder stopped.
`Reads` composes along `do` blocks and loops, so a round trip is proved field by field.
-/

namespace Peerward.Lib

variable {ε α β σ : Type}

/-- Peels one step off a computation that succeeded. -/
theorem bind_eq_ok {x : Except ε α} {f : α → Except ε β} {b : β} :
    (x >>= f) = .ok b ↔ ∃ a, x = .ok a ∧ f a = .ok b := by
  cases x with
  | error err => exact ⟨nofun, nofun⟩
  | ok a => exact ⟨fun h => ⟨a, rfl, h⟩, fun ⟨_, ha, h⟩ => Except.ok.inj ha ▸ h⟩

theorem bind_eq_error {x : Except ε α} {f : α → Except ε β} {failure : ε} :
    (x >>= f) = .error failure ↔ x = .error failure ∨ ∃ a, x = .ok a ∧ f a = .error failure := by
  cases x with
  | error err => exact ⟨fun h => .inl (by cases h; rfl), fun h => by
      rcases h with h | ⟨_, h, _⟩ <;> cases h; rfl⟩
  | ok a => exact ⟨fun h => .inr ⟨a, rfl, h⟩, fun h => by
      rcases h with h | ⟨_, ha, h⟩
      · cases h
      · exact Except.ok.inj ha ▸ h⟩

theorem map_eq_ok {x : Except ε α} {f : α → β} {b : β} : x.map f = .ok b ↔ ∃ a, x = .ok a ∧ f a = b := by
  cases x with
  | error err => exact ⟨nofun, nofun⟩
  | ok a => exact ⟨fun h => ⟨a, rfl, Except.ok.inj h⟩, fun ⟨_, ha, h⟩ => Except.ok.inj ha ▸ h ▸ rfl⟩

@[simp] theorem ok_bind (a : α) (f : α → Except ε β) : (Except.ok a >>= f) = f a := rfl

/-- `return Err(..)` under a condition. -/
def rejectIf (bad : Bool) (failure : ε) : Except ε Unit := if bad then .error failure else .ok ()

@[simp] theorem rejectIf_eq_ok {bad : Bool} {failure : ε} :
    rejectIf bad failure = .ok () ↔ bad = false := by
  cases bad <;> simp [rejectIf]

/-- What every successful turn of a loop keeps holds when the loop succeeds. -/
theorem mapM_eq_ok {f : α → Except ε β} {g : α → β} {l : List α} (h : ∀ a ∈ l, f a = .ok (g a)) :
    l.mapM f = .ok (l.map g) := by
  induction l with
  | nil => rfl
  | cons a rest ih =>
      rw [List.mapM_cons, h a List.mem_cons_self, ih fun b hb => h b (List.mem_cons_of_mem a hb)]
      rfl

/-- Every turn of a loop that succeeded has succeeded. -/
theorem forall₂_of_mapM {f : α → Except ε β} {l : List α} {r : List β} (h : l.mapM f = .ok r) :
    List.Forall₂ (fun a b => f a = .ok b) l r := by
  induction l generalizing r with
  | nil =>
      rw [← Except.ok.inj h]
      exact .nil
  | cons a l ih =>
      rw [List.mapM_cons] at h
      obtain ⟨b, hb, h⟩ := bind_eq_ok.mp h
      obtain ⟨bs, hbs, h⟩ := bind_eq_ok.mp h
      rw [← Except.ok.inj h]
      exact .cons hb (ih hbs)

/-- A loop without a result succeeds exactly when each of its turns does. -/
theorem forM_eq_ok {f : α → Except ε Unit} {l : List α} :
    l.forM f = .ok () ↔ ∀ a ∈ l, f a = .ok () := by
  induction l with
  | nil => exact ⟨nofun, fun _ => rfl⟩
  | cons a l ih =>
      rw [List.forM_eq_forM, List.forM_cons, bind_eq_ok, List.forall_mem_cons, ← ih]
      exact ⟨fun ⟨⟨⟩, ha, hl⟩ => ⟨ha, hl⟩, fun ⟨ha, hl⟩ => ⟨(), ha, hl⟩⟩

theorem foldlM_invariant {f : β → α → Except ε β} {P : β → Prop} {l : List α} {b b' : β}
    (init : P b) (keep : ∀ a ∈ l, ∀ b b', f b a = .ok b' → P b → P b')
    (h : l.foldlM f b = .ok b') : P b' := by
  induction l generalizing b with
  | nil => exact Except.ok.inj h ▸ init
  | cons a l ih =>
      rw [List.foldlM_cons] at h
      obtain ⟨b₁, hstep, hrest⟩ := bind_eq_ok.mp h
      refine ih (keep a (by simp) b b₁ hstep init) (fun a' ha' => keep a' (by simp [ha'])) hrest

/-- A decoder over the bytes not yet consumed. -/
abbrev Decoder (ε α : Type) := StateT Bytes (Except ε) α

namespace Decoder

section Primitives

variable (fail : ε)

/-- The error exit of an `if` that rejects. -/
def reject (bad : Bool) : Decoder ε Unit := if bad then throw fail else pure ()

/-- `Decoder::take` and `Decoder::array`. -/
def take (length : Nat) : Decoder ε Bytes := fun bytes =>
  if length ≤ bytes.length then .ok (bytes.take length, bytes.drop length) else .error fail

/-- `Decoder::byte`. -/
def byte : Decoder ε UInt8
  | [] => .error fail
  | b :: bytes => .ok (b, bytes)

/-- A big-endian number of `width` bytes. -/
def number (width : Nat) : Decoder ε Nat := ofBE <$> take fail width

/-- `Decoder::boolean`. -/
def boolean : Decoder ε Bool := do
  let b ← byte fail
  if b = 0 then return false
  else if b = 1 then return true
  else throw fail

/-- `Decoder::count`: a length that the remaining bytes could at least hold. -/
def count : Decoder ε Nat := do
  let n ← number fail 4
  if n ≤ (← get).length then return n else throw fail

end Primitives

/-- A counted loop around a mutable accumulator. -/
def loop (body : σ → Decoder ε σ) : Nat → σ → Decoder ε σ
  | 0, s => pure s
  | n + 1, s => do loop body n (← body s)

/-! ## Reading back

`Reads` is the round trip of an encoding in front of whatever follows, which is what composes: fields, then
records, then loops of records.
-/

/-- From `bytes`, whatever follows, the decoder returns `a` and consumes nothing else. -/
def Reads (d : Decoder ε α) (bytes : Bytes) (a : α) : Prop :=
  ∀ rest, d.run (bytes ++ rest) = .ok (a, rest)

theorem Reads.pure (a : α) : Reads (Pure.pure a : Decoder ε α) [] a := fun _ => rfl

theorem Reads.bind {d : Decoder ε α} {f : α → Decoder ε β} {bytes bytes' : Bytes} {a : α} {b : β}
    (hd : Reads d bytes a) (hf : Reads (f a) bytes' b) : Reads (d >>= f) (bytes ++ bytes') b := by
  intro rest
  rw [StateT.run_bind, List.append_assoc, hd]
  exact hf rest

/-- A continuation that reads nothing more. -/
theorem Reads.bind_nil {d : Decoder ε α} {f : α → Decoder ε β} {bytes : Bytes} {a : α} {b : β}
    (hd : Reads d bytes a) (hf : Reads (f a) [] b) : Reads (d >>= f) bytes b := by
  have h := hd.bind hf
  rwa [List.append_nil] at h

theorem Reads.map {d : Decoder ε α} {bytes : Bytes} {a : α} (hd : Reads d bytes a) (f : α → β) :
    Reads (f <$> d) bytes (f a) := by
  intro rest
  rw [StateT.run_map, hd]
  rfl

/-- What is read determines the value. -/
theorem Reads.unique {d : Decoder ε α} {bytes : Bytes} {a b : α} (ha : Reads d bytes a)
    (hb : Reads d bytes b) : a = b := by
  have h := (ha []).symm.trans (hb [])
  cases h
  rfl

theorem Reads.reject {fail : ε} {bad : Bool} (h : bad = false) : Reads (reject fail bad) [] () := by
  rw [Decoder.reject, h]
  exact Reads.pure ()

theorem Reads.take {fail : ε} (bytes : Bytes) : Reads (take fail bytes.length) bytes bytes := by
  intro rest
  show Decoder.take fail bytes.length (bytes ++ rest) = _
  rw [Decoder.take, if_pos (by simp), List.take_left, List.drop_left]

theorem Reads.byte {fail : ε} (b : UInt8) : Reads (byte fail) [b] b := fun _ => rfl

theorem Reads.byte_bind {fail : ε} {f : UInt8 → Decoder ε β} {b : UInt8} {bytes : Bytes} {c : β}
    (hf : Reads (f b) bytes c) : Reads (Decoder.byte fail >>= f) (b :: bytes) c :=
  (Reads.byte b).bind hf

theorem Reads.number {fail : ε} {width n : Nat} (h : n < 256 ^ width) :
    Reads (number fail width) (toBE width n) n := by
  have htake : Reads (Decoder.take fail (toBE width n).length) (toBE width n) _ := .take _
  rw [length_toBE] at htake
  have hread := htake.map ofBE
  rwa [ofBE_toBE_of_lt h] at hread

theorem Reads.boolean {fail : ε} (b : Bool) :
    Reads (boolean fail) [if b then 1 else 0] b := by
  intro rest
  cases b <;> rfl

/-- A count is accepted in front of at least as many bytes. -/
theorem Reads.count_bind {fail : ε} {f : Nat → Decoder ε β} {n : Nat} {bytes : Bytes} {b : β}
    (hn : n < 2 ^ 32) (hroom : n ≤ bytes.length) (hf : Reads (f n) bytes b) :
    Reads (count fail >>= f) (toBE 4 n ++ bytes) b := by
  intro rest
  have hnumber : (Decoder.number fail 4).run (toBE 4 n ++ (bytes ++ rest)) =
      .ok (n, bytes ++ rest) := Reads.number hn (bytes ++ rest)
  have hcount : (count fail).run (toBE 4 n ++ (bytes ++ rest)) = .ok (n, bytes ++ rest) := by
    rw [count, StateT.run_bind, hnumber]
    show (if n ≤ (bytes ++ rest).length then _ else _ : Decoder ε Nat).run _ = _
    rw [if_pos (by simp only [List.length_append]; omega)]
    rfl
  rw [StateT.run_bind, List.append_assoc, hcount]
  exact hf rest

/-- A loop reads the encodings of a list, provided each turn reads its element in the state the
turns before it have built. -/
theorem Reads.loop {body : σ → Decoder ε σ} {items : List α} {enc : α → Bytes}
    {next : σ → α → σ} {s : σ}
    (h : ∀ before item after, items = before ++ item :: after →
      Reads (body (before.foldl next s)) (enc item) (next (before.foldl next s) item)) :
    Reads (loop body items.length s) (items.flatMap enc) (items.foldl next s) := by
  induction items generalizing s with
  | nil => exact Reads.pure s
  | cons item items ih =>
      refine (h [] item items rfl).bind (ih fun before item' after heq => ?_)
      exact h (item :: before) item' after (by rw [heq, List.cons_append])

/-- A loop that appends what it reads. -/
theorem Reads.loop_push {item : Decoder ε β} {items : List α} {enc : α → Bytes} {val : α → β}
    (h : ∀ a ∈ items, Reads item (enc a) (val a)) :
    Reads (Decoder.loop (fun acc => (fun b => acc ++ [b]) <$> item) items.length [])
      (items.flatMap enc) (items.map val) := by
  have hread : Reads (Decoder.loop (fun acc => (fun b => acc ++ [b]) <$> item) items.length [])
      (items.flatMap enc) (items.foldl (fun acc a => acc ++ [val a]) []) :=
    Reads.loop fun before a after heq => (h a (by simp [heq])).map _
  have hfold : ∀ (l : List α) (acc : List β),
      l.foldl (fun acc a => acc ++ [val a]) acc = acc ++ l.map val := by
    intro l
    induction l with
    | nil => simp
    | cons a l ih => simp [ih]
  rwa [hfold, List.nil_append] at hread

/-- Encodings with at least one byte each leave room for their count. -/
theorem length_le_flatMap {items : List α} {enc : α → Bytes} (h : ∀ a ∈ items, enc a ≠ []) :
    items.length ≤ (items.flatMap enc).length := by
  induction items with
  | nil => simp
  | cons item items ih =>
      have hitem := List.length_pos_of_ne_nil (h item (by simp))
      have hrest := ih fun a ha => h a (by simp [ha])
      simp only [List.length_cons, List.flatMap_cons, List.length_append]
      omega

end Decoder

end Peerward.Lib
