import Peerward.Lib.Decoder

/-!
# Grammars of decoders

`Reads` says what a decoder makes of the bytes an encoder wrote. A grammar says more: `Parses d R` holds
when `d` succeeds exactly on inputs with a front that `R` gives to the value returned, so that nothing
but what `R` describes is accepted. Grammars compose along `do` blocks and counted loops as the decoders
do.
-/

namespace Peerward.Lib.Decoder

variable {ε α β : Type} {d : Decoder ε α} {R R' : α → Bytes → Prop}

/-- `d` reads `a` off the front of an input, and leaves the rest, exactly where `R a` describes that
front. -/
def Parses (d : Decoder ε α) (R : α → Bytes → Prop) : Prop :=
  ∀ bytes a rest, d.run bytes = .ok (a, rest) ↔ ∃ front, R a front ∧ bytes = front ++ rest

theorem Parses.congr (h : Parses d R) (hR : ∀ a front, R a front ↔ R' a front) : Parses d R' := by
  intro bytes a rest
  rw [h bytes a rest]
  exact exists_congr fun front => and_congr_left fun _ => hR a front

/-- A decoder that has to use its whole input. -/
theorem Parses.all (h : Parses d R) (bytes : Bytes) (a : α) :
    d.run bytes = .ok (a, []) ↔ R a bytes := by
  rw [h bytes a []]
  simp

theorem Parses.pure (a : α) : Parses (Pure.pure a : Decoder ε α) fun b front => b = a ∧ front = [] := by
  intro bytes b rest
  constructor
  · intro h
    cases h
    exact ⟨[], ⟨rfl, rfl⟩, rfl⟩
  · rintro ⟨_, ⟨rfl, rfl⟩, rfl⟩
    rfl

theorem Parses.throw (fail : ε) : Parses (throw fail : Decoder ε α) fun _ _ => False :=
  fun _ _ _ => ⟨nofun, fun ⟨_, h, _⟩ => h.elim⟩

theorem Parses.bind {f : α → Decoder ε β} {S : α → β → Bytes → Prop} (hd : Parses d R)
    (hf : ∀ a front, R a front → Parses (f a) (S a)) :
    Parses (d >>= f) fun b front => ∃ a first second,
      R a first ∧ S a b second ∧ front = first ++ second := by
  intro bytes b rest
  rw [StateT.run_bind, bind_eq_ok]
  constructor
  · rintro ⟨⟨a, middle⟩, ha, hb⟩
    obtain ⟨first, hfirst, rfl⟩ := (hd bytes a middle).mp ha
    obtain ⟨second, hsecond, rfl⟩ := (hf a first hfirst middle b rest).mp hb
    exact ⟨first ++ second, ⟨a, first, second, hfirst, hsecond, rfl⟩, (List.append_assoc ..).symm⟩
  · rintro ⟨_, ⟨a, first, second, hfirst, hsecond, rfl⟩, rfl⟩
    rw [List.append_assoc]
    exact ⟨(a, second ++ rest), (hd _ a _).mpr ⟨first, hfirst, rfl⟩,
      (hf a first hfirst _ b rest).mpr ⟨second, hsecond, rfl⟩⟩

theorem Parses.map (hd : Parses d R) (f : α → β) :
    Parses (f <$> d) fun b front => ∃ a, R a front ∧ b = f a := by
  intro bytes b rest
  rw [StateT.run_map]
  constructor
  · intro h
    obtain ⟨⟨a, middle⟩, ha, h⟩ := map_eq_ok.mp h
    cases h
    obtain ⟨front, hfront, rfl⟩ := (hd bytes a _).mp ha
    exact ⟨front, ⟨a, hfront, rfl⟩, rfl⟩
  · rintro ⟨front, ⟨a, hfront, rfl⟩, rfl⟩
    rw [(hd _ a rest).mpr ⟨front, hfront, rfl⟩]
    rfl

theorem Parses.ite {c : Prop} [Decidable c] {d' : Decoder ε α} (hd : c → Parses d R)
    (hd' : ¬ c → Parses d' R') :
    Parses (if c then d else d') fun a front => if c then R a front else R' a front := by
  split
  · next h => exact hd h
  · next h => exact hd' h

section Primitives

variable {fail : ε}

theorem Parses.reject (bad : Bool) :
    Parses (reject fail bad) fun _ front => bad = false ∧ front = [] := by
  unfold Decoder.reject
  cases bad with
  | false => exact (Parses.pure ()).congr fun _ _ => and_congr_left fun _ => ⟨fun _ => rfl, fun _ => rfl⟩
  | true => exact (Parses.throw fail).congr fun _ _ => ⟨False.elim, nofun⟩

theorem Parses.take (length : Nat) :
    Parses (take fail length) fun a front => front = a ∧ a.length = length := by
  intro bytes a rest
  show Decoder.take fail length bytes = _ ↔ _
  unfold Decoder.take
  constructor
  · intro h
    split at h
    · next hlength =>
        cases h
        exact ⟨_, ⟨rfl, by rw [List.length_take, Nat.min_eq_left hlength]⟩,
          (List.take_append_drop length bytes).symm⟩
    · cases h
  · rintro ⟨_, ⟨rfl, rfl⟩, rfl⟩
    rw [if_pos (by simp), List.take_left, List.drop_left]

theorem Parses.byte : Parses (byte fail) fun b front => front = [b] := by
  intro bytes b rest
  cases bytes with
  | nil => exact ⟨nofun, by rintro ⟨_, rfl, h⟩; cases h⟩
  | cons first bytes =>
      constructor
      · intro h
        cases h
        exact ⟨_, rfl, rfl⟩
      · rintro ⟨_, rfl, h⟩
        cases h
        rfl

theorem Parses.number (width : Nat) :
    Parses (number fail width) fun n front => n < 256 ^ width ∧ front = toBE width n := by
  refine ((Parses.take width).map ofBE).congr fun n front => ?_
  constructor
  · rintro ⟨_, ⟨rfl, rfl⟩, rfl⟩
    exact ⟨ofBE_lt _, (toBE_ofBE _).symm⟩
  · rintro ⟨hn, rfl⟩
    exact ⟨_, ⟨rfl, length_toBE width n⟩, (ofBE_toBE_of_lt hn).symm⟩

/-- A big-endian number of a fixed width in bits. -/
theorem Parses.bits {n width : Nat} (hwidth : 2 ^ n = 256 ^ width) :
    Parses (BitVec.ofNat n <$> Decoder.number fail width) fun value front =>
      front = toBE width value.toNat := by
  refine ((Parses.number width).map (BitVec.ofNat n)).congr fun value front => ?_
  constructor
  · rintro ⟨m, ⟨hm, rfl⟩, rfl⟩
    rw [BitVec.toNat_ofNat, Nat.mod_eq_of_lt (hwidth ▸ hm)]
  · rintro rfl
    refine ⟨value.toNat, ⟨hwidth ▸ value.isLt, rfl⟩, ?_⟩
    rw [BitVec.ofNat_toNat, BitVec.setWidth_eq]

theorem Parses.boolean :
    Parses (boolean fail) fun b front => front = [if b then 1 else 0] := by
  refine (Parses.byte.bind fun b _ _ => Parses.ite (fun _ => Parses.pure false) fun _ =>
    Parses.ite (fun _ => Parses.pure true) fun _ => Parses.throw fail).congr fun value front => ?_
  constructor
  · rintro ⟨b, _, _, rfl, h, rfl⟩
    split at h
    · next hzero =>
        obtain ⟨rfl, rfl⟩ := h
        rw [hzero]
        rfl
    · split at h
      · next hone =>
          obtain ⟨rfl, rfl⟩ := h
          rw [hone]
          rfl
      · exact h.elim
  · rintro rfl
    cases value with
    | false => exact ⟨0, [0], [], rfl, by rw [if_pos rfl]; exact ⟨rfl, rfl⟩, rfl⟩
    | true => exact ⟨1, [1], [], rfl, by rw [if_neg (by decide), if_pos rfl]; exact ⟨rfl, rfl⟩, rfl⟩

end Primitives

/-- A check that reads nothing. -/
theorem Parses.lift (check : Except ε α) :
    Parses (StateT.lift check) fun a front => check = .ok a ∧ front = [] := by
  intro bytes a rest
  show (check >>= fun a => .ok (a, bytes)) = _ ↔ _
  rw [bind_eq_ok]
  constructor
  · rintro ⟨_, hcheck, h⟩
    cases h
    exact ⟨[], ⟨hcheck, rfl⟩, rfl⟩
  · rintro ⟨_, ⟨hcheck, rfl⟩, rfl⟩
    exact ⟨a, hcheck, rfl⟩

/-! ## Counted loops -/

/-- Items one after the other. -/
def Sequence (R : α → Bytes → Prop) (items : List α) (front : Bytes) : Prop :=
  ∃ parts, List.Forall₂ R items parts ∧ front = parts.flatten

theorem sequence_nil {front : Bytes} : Sequence R [] front ↔ front = [] := by
  constructor
  · rintro ⟨_, ⟨⟩, rfl⟩
    rfl
  · rintro rfl
    exact ⟨[], .nil, rfl⟩

theorem sequence_cons {item : α} {items : List α} {front : Bytes} :
    Sequence R (item :: items) front ↔
      ∃ first second, R item first ∧ Sequence R items second ∧ front = first ++ second := by
  constructor
  · rintro ⟨_, hparts, rfl⟩
    cases hparts with
    | cons hitem hitems => exact ⟨_, _, hitem, ⟨_, hitems, rfl⟩, rfl⟩
  · rintro ⟨first, _, hitem, ⟨parts, hitems, rfl⟩, rfl⟩
    exact ⟨first :: parts, .cons hitem hitems, rfl⟩

/-- A sequence of items that are each written in one way. -/
theorem sequence_encoded {V : α → Prop} {enc : α → Bytes} {items : List α} {front : Bytes} :
    Sequence (fun a bytes => V a ∧ bytes = enc a) items front ↔
      (∀ item ∈ items, V item) ∧ front = items.flatMap enc := by
  induction items generalizing front with
  | nil => rw [sequence_nil]; simp
  | cons item items ih =>
      rw [sequence_cons]
      simp only [ih, List.forall_mem_cons, List.flatMap_cons]
      constructor
      · rintro ⟨_, _, ⟨hitem, rfl⟩, ⟨hitems, rfl⟩, rfl⟩
        exact ⟨⟨hitem, hitems⟩, rfl⟩
      · rintro ⟨⟨hitem, hitems⟩, rfl⟩
        exact ⟨_, _, ⟨hitem, rfl⟩, ⟨hitems, rfl⟩, rfl⟩

/-- A loop that appends what it reads. -/
theorem Parses.loop_push (hd : Parses d R) (count : Nat) (before : List α) :
    Parses (loop (fun acc => (fun a => acc ++ [a]) <$> d) count before) fun all front =>
      ∃ items, items.length = count ∧ all = before ++ items ∧ Sequence R items front := by
  induction count generalizing before with
  | zero =>
      refine (Parses.pure before).congr fun all front => ?_
      constructor
      · rintro ⟨rfl, rfl⟩
        exact ⟨[], rfl, (List.append_nil _).symm, sequence_nil.mpr rfl⟩
      · rintro ⟨items, hlength, rfl, hsequence⟩
        cases List.length_eq_zero_iff.mp hlength
        exact ⟨List.append_nil _, sequence_nil.mp hsequence⟩
  | succ count ih =>
      refine ((hd.map fun a => before ++ [a]).bind fun acc _ _ => ih acc).congr fun all front => ?_
      constructor
      · rintro ⟨_, first, second, ⟨a, hfirst, rfl⟩, ⟨items, hlength, rfl, hsecond⟩, rfl⟩
        exact ⟨a :: items, by rw [List.length_cons, hlength], by simp,
          sequence_cons.mpr ⟨first, second, hfirst, hsecond, rfl⟩⟩
      · rintro ⟨items, hlength, rfl, hsequence⟩
        cases items with
        | nil => cases hlength
        | cons a items =>
            obtain ⟨first, second, hfirst, hsecond, rfl⟩ := sequence_cons.mp hsequence
            exact ⟨before ++ [a], first, second, ⟨a, hfirst, rfl⟩,
              ⟨items, Nat.succ.inj hlength, by simp, hsecond⟩, rfl⟩

end Peerward.Lib.Decoder
