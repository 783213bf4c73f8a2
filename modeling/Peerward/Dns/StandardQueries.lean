import Peerward.Dns.Questions
import Peerward.Lib.Fields

/-!
# Standard queries

Neither parser reads outside a message. On standard queries, whose grammar is written out as an encoder,
they agree as long as no label has an underscore: the Android parser accepts it, the Linux parser refuses
the whole query.
-/

namespace Peerward.Dns

open Peerward.Lib Peerward.Lib.Bounded

/-! ## Reading stays inside

A read outside the message would stop the program and is an error of its own here. A sequence of reads has
none when its parts have none.
-/

/-- No read was outside. -/
structure Inside {A : Type} (result : Except Stop A) : Prop where
  ne : result ≠ .error .outOfBounds

theorem readU16_inside (message : Bytes) (offset : Nat) : Inside (readU16 message offset) := by
  unfold readU16
  split <;> exact ⟨nofun⟩

/-- A sequence stays inside when its first step does and what follows does. -/
theorem bind_inside {A B : Type} {first : Except Stop A} {next : A → Except Stop B}
    (hfirst : Inside first) (hnext : ∀ a, first = .ok a → Inside (next a)) : Inside (first >>= next) := by
  cases first with
  | ok a => exact hnext a rfl
  | error stop => exact ⟨fun h => hfirst.ne (congrArg _ (Except.error.inj h))⟩

theorem Linux.decodeNameFrom_inside (message : Bytes) (cursor : Nat) (labels : List Bytes)
    (stop : Option Nat) (jumps expanded : Nat) :
    Inside (Linux.decodeNameFrom message cursor labels stop jumps expanded) := by
  fun_induction Linux.decodeNameFrom with
  | case8 cursor labels stop jumps expanded length hlength _ _ _ labelEnd hfits ih =>
      rw [sliceAt_of_le (by omega) (by omega), ok_bind]
      split
      · exact ⟨nofun⟩
      split
      · exact ⟨nofun⟩
      · exact ih _
  | case4 => assumption
  | _ => exact ⟨nofun⟩

theorem Android.decodeNameFrom_inside (message : Bytes) (cursor : Nat) (labels : List Bytes)
    (expanded : Nat) : Inside (Android.decodeNameFrom message cursor labels expanded) := by
  fun_induction Android.decodeNameFrom with
  | case7 _ _ _ _ _ _ _ _ _ _ _ _ ih => exact ih
  | _ => exact ⟨nofun⟩

theorem checked_inside {A : Type} (result : Except DnsError A) : Inside (checked result) :=
  ⟨checked_ne_outOfBounds result⟩

theorem of_checked {bad : Bool} {error : DnsError} {u : Unit} (h : checked (rejectIf bad error) = .ok u) :
    bad = false := by
  cases bad with
  | false => rfl
  | true => cases h

theorem Linux.readAdditional_inside (message : Bytes) (count cursor udpLimit : Nat) (seenOpt : Bool) :
    Inside (Linux.readAdditional message count cursor udpLimit seenOpt) := by
  induction count generalizing cursor udpLimit seenOpt with
  | zero => exact ⟨nofun⟩
  | succ count ih =>
      refine bind_inside (Linux.decodeNameFrom_inside ..) fun _ _ => ?_
      refine bind_inside (checked_inside _) fun _ hroom => ?_
      replace hroom := of_decide_eq_false (of_checked hroom)
      refine bind_inside (readU16_inside ..) fun _ _ => bind_inside (readU16_inside ..) fun _ _ => ?_
      rw [sliceAt_of_le (by omega) (by omega), ok_bind]
      refine bind_inside (readU16_inside ..) fun _ _ => ?_
      refine bind_inside (checked_inside _) fun _ _ => ?_
      exact bind_inside (checked_inside _) fun _ _ => ih ..

/-- **The Linux parser reads nothing outside the message.** -/
theorem Linux.parseQuestion_inside (message : Bytes) : Inside (Linux.parseQuestion message) := by
  unfold Linux.parseQuestion
  refine bind_inside (checked_inside _) fun _ _ => bind_inside (readU16_inside ..) fun _ _ => ?_
  refine bind_inside (checked_inside _) fun _ _ => bind_inside (readU16_inside ..) fun _ _ => ?_
  refine bind_inside (checked_inside _) fun _ _ => bind_inside (readU16_inside ..) fun _ _ => ?_
  refine bind_inside (checked_inside _) fun _ _ => bind_inside (readU16_inside ..) fun _ _ => ?_
  refine bind_inside (checked_inside _) fun _ _ => ?_
  refine bind_inside (Linux.decodeNameFrom_inside ..) fun _ _ => ?_
  refine bind_inside (checked_inside _) fun _ _ => bind_inside (readU16_inside ..) fun _ _ => ?_
  refine bind_inside (readU16_inside ..) fun _ _ => bind_inside (checked_inside _) fun _ _ => ?_
  refine bind_inside (readU16_inside ..) fun _ _ => ?_
  refine bind_inside (Linux.readAdditional_inside ..) fun _ _ => ?_
  refine bind_inside (checked_inside _) fun _ _ => bind_inside (readU16_inside ..) fun _ _ => ?_
  exact ⟨nofun⟩

/-- **Nor does the Android parser.** -/
theorem Android.parseQuestion_inside (query : Bytes) : Inside (Android.parseQuestion query) := by
  unfold Android.parseQuestion
  refine bind_inside (checked_inside _) fun _ _ => bind_inside (readU16_inside ..) fun _ _ => ?_
  refine bind_inside (checked_inside _) fun _ _ => bind_inside (readU16_inside ..) fun _ _ => ?_
  refine bind_inside (checked_inside _) fun _ _ => bind_inside (readU16_inside ..) fun _ _ => ?_
  refine bind_inside (checked_inside _) fun _ _ => bind_inside (readU16_inside ..) fun _ _ => ?_
  refine bind_inside (checked_inside _) fun _ _ => bind_inside (readU16_inside ..) fun _ _ => ?_
  refine bind_inside (checked_inside _) fun _ _ => ?_
  refine bind_inside (Android.decodeNameFrom_inside ..) fun _ _ => ?_
  refine bind_inside (checked_inside _) fun _ _ => bind_inside (readU16_inside ..) fun _ _ => ?_
  refine bind_inside (checked_inside _) fun _ _ => bind_inside (readU16_inside ..) fun _ _ => ?_
  exact ⟨nofun⟩

/-! ## The grammar

A standard query, written out from its labels. Nothing is said of how it is read; the two parsers are
compared on what it contains.
-/

/-- A label of 1 to 63 letters, digits, hyphens or underscores. -/
structure Label (bytes : Bytes) : Prop where
  nonempty : bytes ≠ []
  length : bytes.length ≤ 63
  bytes : ∀ byte ∈ bytes, Android.isLabelByte byte = true

/-- A version-0 OPT record with root owner. -/
structure Opt where
  udpSize : BitVec 16
  extendedRcode : UInt8
  flags : BitVec 16
  data : Bytes
  length_data : data.length < 2 ^ 16

namespace Opt

def bytes (opt : Opt) : Bytes :=
  [0] ++ (toBE 2 41 ++ (toBE 2 opt.udpSize.toNat ++ ([opt.extendedRcode, 0] ++ toBE 2 opt.flags.toNat
    ++ (toBE 2 opt.data.length ++ opt.data))))

end Opt

/-- The labels, each behind its length. -/
def labelBytes (labels : List Bytes) : Bytes := labels.flatMap fun label => UInt8.ofNat label.length :: label

/-- A query with one question of class IN, uncompressed, and at most an OPT record. -/
structure StandardQuery where
  id : BitVec 16
  /-- QR and the operation code are zero. -/
  flags : BitVec 11
  labels : List Bytes
  valid : ∀ label ∈ labels, Label label
  expanded : (labels.map fun label => label.length + 1).sum ≤ 254
  qtype : BitVec 16
  opt : Option Opt

namespace StandardQuery

variable (query : StandardQuery)

def header : Bytes :=
  toBE 2 query.id.toNat ++ (toBE 2 query.flags.toNat ++ (toBE 2 1 ++ (toBE 2 0 ++ (toBE 2 0
    ++ toBE 2 (if query.opt.isSome then 1 else 0)))))

def question : Bytes := labelBytes query.labels ++ ([0] ++ (toBE 2 query.qtype.toNat ++ toBE 2 1))

def bytes : Bytes := query.header ++ (query.question ++ (query.opt.map Opt.bytes).getD [])

/-- The name in lower case. -/
def name : Bytes := joined (query.labels.map fun label => label.map toAsciiLowercase)

/-- The place behind the question. -/
def questionEnd : Nat := DNS_HEADER + query.question.length

end StandardQuery

/-! ## Names

A parser is followed along the labels of a name, one length byte and its label at a time, up to the root.
-/

/-- A 16-bit field in front of what follows it. -/
theorem readU16_of_drop {message after : Bytes} {offset n : Nat} (h : message.drop offset = toBE 2 n ++ after)
    (hn : n < 2 ^ 16) : readU16 message offset = .ok n ∧ message.drop (offset + 2) = after := by
  have hlength := congrArg List.length h
  rw [List.length_drop, List.length_append, length_toBE] at hlength
  unfold readU16
  rw [if_pos (by omega), slice_of_drop h (by rw [length_toBE]), ofBE_toBE_of_lt hn]
  exact ⟨rfl, drop_of_drop h (by rw [length_toBE])⟩

/-- A message with a label behind its length. -/
structure LabelAt (message : Bytes) (cursor : Nat) (label : Bytes) : Prop where
  length : message[cursor]? = some (UInt8.ofNat label.length)
  slice : slice message (cursor + 1) (cursor + 1 + label.length) = label
  room : cursor + 1 + label.length ≤ message.length

theorem labelAt_append (before label after : Bytes) :
    LabelAt (before ++ (UInt8.ofNat label.length :: label ++ after)) before.length label := by
  refine ⟨by simp, ?_, ?_⟩
  · refine @slice_middle _ (before ++ [UInt8.ofNat label.length]) _ after _ _ (by simp) ?_ rfl
    simp
  · simp only [List.length_append, List.length_cons]
    omega

/-- What the length byte of a label tells the parsers. -/
theorem Label.lengthByte {label : Bytes} (h : Label label) :
    (UInt8.ofNat label.length).toNat = label.length ∧ UInt8.ofNat label.length ≠ 0 ∧
      UInt8.ofNat label.length ≤ 63 ∧ UInt8.ofNat label.length &&& 0xc0 = 0 := by
  have hpositive := List.length_pos_iff.mpr h.nonempty
  have hle := h.length
  generalize label.length = n at *
  have hall : ∀ n : Fin 64, 0 < n.val → (UInt8.ofNat n.val).toNat = n.val ∧ UInt8.ofNat n.val ≠ 0 ∧
      UInt8.ofNat n.val ≤ 63 ∧ UInt8.ofNat n.val &&& 0xc0 = 0 := by decide
  exact hall ⟨n, by omega⟩ hpositive

/-- One label read by the Linux parser. -/
theorem Linux.decodeNameFrom_label {message label : Bytes} {cursor : Nat} (hlabel : Label label)
    (hat : LabelAt message cursor label) (labels : List Bytes) (expanded : Nat) :
    Linux.decodeNameFrom message cursor labels none 0 expanded =
      if label.all Linux.isLabelByte = true ∧ expanded + (label.length + 1) ≤ 254 then
        Linux.decodeNameFrom message (cursor + 1 + label.length) (labels ++ [label.map toAsciiLowercase])
          none 0 (expanded + (label.length + 1))
      else .error (.refused .invalid) := by
  obtain ⟨hnat, hzero, hsmall, hmask⟩ := hlabel.lengthByte
  conv_lhs => unfold Linux.decodeNameFrom
  have hnotPointer : ¬ (0 : UInt8) = 0xc0 := by decide
  have hnotLarge : ¬ (UInt8.ofNat label.length &&& 0xc0 ≠ 0 ∨ 63 < UInt8.ofNat label.length) := by
    rw [not_or, not_not]
    exact ⟨hmask, UInt8.not_lt.mpr hsmall⟩
  split
  · next hnone => cases hnone.symm.trans hat.length
  next length hlength =>
  cases hlength.symm.trans hat.length
  rw [if_neg (by rw [hmask]; exact hnotPointer), if_neg hnotLarge, if_neg hzero]
  dsimp only
  rw [hnat, if_neg (Nat.not_lt.mpr hat.room), sliceAt_of_le (by omega) hat.room, hat.slice, ok_bind]
  cases hall : label.all Linux.isLabelByte with
  | false => rfl
  | true =>
      rw [if_neg (by decide)]
      by_cases hlong : expanded + (label.length + 1) ≤ 254
      · rw [if_neg (by omega), if_pos ⟨rfl, hlong⟩]
      · rw [if_pos (by omega), if_neg fun h => hlong h.2]

/-- One label read by the Android parser. -/
theorem Android.decodeNameFrom_label {message label : Bytes} {cursor : Nat} (hlabel : Label label)
    (hat : LabelAt message cursor label) (labels : List Bytes) {expanded : Nat}
    (hexpanded : expanded + (label.length + 1) ≤ 254) :
    Android.decodeNameFrom message cursor labels expanded =
      Android.decodeNameFrom message (cursor + 1 + label.length) (labels ++ [label.map toAsciiLowercase])
        (expanded + (label.length + 1)) := by
  obtain ⟨hnat, hzero, hsmall, -⟩ := hlabel.lengthByte
  conv_lhs => unfold Android.decodeNameFrom
  have hall : label.all Android.isLabelByte = true := List.all_eq_true.mpr hlabel.bytes
  split
  · next hnone => cases hnone.symm.trans hat.length
  next length hlength =>
  cases hlength.symm.trans hat.length
  rw [if_neg hzero, if_neg (UInt8.not_lt.mpr hsmall)]
  dsimp only
  rw [hnat, if_neg (Nat.not_lt.mpr hat.room), hat.slice, hall, if_neg (by decide), if_neg (by omega)]

section Names

variable {labels : List Bytes}

theorem labelBytes_cons (label : Bytes) (labels : List Bytes) (after : Bytes) :
    labelBytes (label :: labels) ++ after =
      UInt8.ofNat label.length :: label ++ (labelBytes labels ++ after) := by
  simp [labelBytes]

/-- The end of a name. -/
theorem root_at (before after : Bytes) : (before ++ ([0] ++ after))[before.length]? = some 0 := by
  simp

/-- **A name read by the Linux parser**, if it has no underscore; other names are refused. -/
theorem Linux.decodeNameFrom_labels (hvalid : ∀ label ∈ labels, Label label) (before after : Bytes)
    (read : List Bytes) {expanded : Nat}
    (hexpanded : expanded + (labels.map fun label => label.length + 1).sum ≤ 254) :
    Linux.decodeNameFrom (before ++ (labelBytes labels ++ ([0] ++ after))) before.length read none 0 expanded =
      if ∀ label ∈ labels, label.all Linux.isLabelByte = true then
        .ok (joined (read ++ labels.map fun label => label.map toAsciiLowercase),
          before.length + (labelBytes labels).length + 1)
      else .error (.refused .invalid) := by
  induction labels generalizing before read expanded with
  | nil =>
      rw [if_pos (by simp)]
      unfold Linux.decodeNameFrom
      split
      · next hnone => cases hnone.symm.trans (root_at before after)
      next length hlength =>
      cases hlength.symm.trans (root_at before after)
      rw [if_neg (by decide), if_neg (by decide), if_pos rfl]
      simp [labelBytes]
  | cons label labels ih =>
      rw [List.map_cons, List.sum_cons] at hexpanded
      rw [labelBytes_cons, Linux.decodeNameFrom_label (hvalid label List.mem_cons_self)
        (labelAt_append before label _)]
      have hmessage : before ++ (UInt8.ofNat label.length :: label ++ (labelBytes labels ++ ([0] ++ after))) =
          (before ++ UInt8.ofNat label.length :: label) ++ (labelBytes labels ++ ([0] ++ after)) := by
        simp
      have hcursor : before.length + 1 + label.length = (before ++ UInt8.ofNat label.length :: label).length := by
        simp only [List.length_append, List.length_cons]
        omega
      rw [hmessage, hcursor, ih (fun label hmem => hvalid label (List.mem_cons_of_mem _ hmem)) _ _ (by omega)]
      by_cases hall : label.all Linux.isLabelByte = true
      · rw [if_pos ⟨hall, by omega⟩]
        refine if_congr (by rw [List.forall_mem_cons]; exact ⟨fun h => ⟨hall, h⟩, And.right⟩) ?_ rfl
        simp [labelBytes, Nat.add_assoc, Nat.add_comm, Nat.add_left_comm]
      · rw [if_neg fun h => hall h.1, if_neg fun h => hall (h label List.mem_cons_self)]

/-- **A name read by the Android parser.** -/
theorem Android.decodeNameFrom_labels (hvalid : ∀ label ∈ labels, Label label) (before after : Bytes)
    (read : List Bytes) {expanded : Nat}
    (hexpanded : expanded + (labels.map fun label => label.length + 1).sum ≤ 254) :
    Android.decodeNameFrom (before ++ (labelBytes labels ++ ([0] ++ after))) before.length read expanded =
      .ok (joined (read ++ labels.map fun label => label.map toAsciiLowercase),
        before.length + (labelBytes labels).length + 1) := by
  induction labels generalizing before read expanded with
  | nil =>
      unfold Android.decodeNameFrom
      split
      · next hnone => cases hnone.symm.trans (root_at before after)
      next length hlength =>
      cases hlength.symm.trans (root_at before after)
      rw [if_pos rfl]
      simp [labelBytes]
  | cons label labels ih =>
      rw [List.map_cons, List.sum_cons] at hexpanded
      rw [labelBytes_cons, Android.decodeNameFrom_label (hvalid label List.mem_cons_self)
        (labelAt_append before label _) _ (by omega)]
      have hmessage : before ++ (UInt8.ofNat label.length :: label ++ (labelBytes labels ++ ([0] ++ after))) =
          (before ++ UInt8.ofNat label.length :: label) ++ (labelBytes labels ++ ([0] ++ after)) := by
        simp
      have hcursor : before.length + 1 + label.length = (before ++ UInt8.ofNat label.length :: label).length := by
        simp only [List.length_append, List.length_cons]
        omega
      rw [hmessage, hcursor, ih (fun label hmem => hvalid label (List.mem_cons_of_mem _ hmem)) _ _ (by omega)]
      simp [labelBytes, Nat.add_assoc, Nat.add_comm, Nat.add_left_comm]

end Names

/-! ## Whole queries

The header, the name and the rest of the question stand at places that the name's length determines. With
the fields known, each parser runs through its checks; the two differ in their alphabet only.
-/

namespace StandardQuery

variable (query : StandardQuery)

/-- The number of additional records. -/
def additional : Nat := if query.opt.isSome then 1 else 0

/-- The additional record, if any. -/
def tail : Bytes := (query.opt.map Opt.bytes).getD []

/-- The fields of the header, each at its place. -/
theorem header_fields : readU16 query.bytes 0 = .ok query.id.toNat ∧
    readU16 query.bytes 2 = .ok query.flags.toNat ∧ readU16 query.bytes 4 = .ok 1 ∧
    readU16 query.bytes 6 = .ok 0 ∧ readU16 query.bytes 8 = .ok 0 ∧
    readU16 query.bytes 10 = .ok query.additional := by
  have hid := query.id.isLt
  have hflags := query.flags.isLt
  have hadditional : query.additional < 2 ^ 16 := by
    unfold additional
    split <;> omega
  have hbytes : query.bytes = toBE 2 query.id.toNat ++ (toBE 2 query.flags.toNat ++ (toBE 2 1 ++ (toBE 2 0
      ++ (toBE 2 0 ++ (toBE 2 query.additional ++ (query.question ++ query.tail)))))) := by
    unfold bytes header
    simp only [List.append_assoc]
    rfl
  obtain ⟨h0, hrest⟩ := readU16_of_drop (show query.bytes.drop 0 = _ from hbytes) hid
  obtain ⟨h2, hrest⟩ := readU16_of_drop hrest (by omega)
  obtain ⟨h4, hrest⟩ := readU16_of_drop hrest (by omega)
  obtain ⟨h6, hrest⟩ := readU16_of_drop hrest (by omega)
  obtain ⟨h8, hrest⟩ := readU16_of_drop hrest (by omega)
  exact ⟨h0, h2, h4, h6, h8, (readU16_of_drop hrest hadditional).1⟩

theorem length_header : query.header.length = DNS_HEADER := by
  unfold header
  simp only [List.length_append, length_toBE]
  rfl

/-- Where the name ends. -/
def nameEnd : Nat := DNS_HEADER + (labelBytes query.labels).length + 1

theorem questionEnd_eq : query.questionEnd = query.nameEnd + 4 := by
  unfold questionEnd question nameEnd
  simp only [List.length_append, List.length_cons, List.length_nil, length_toBE]
  omega

theorem length_bytes : query.bytes.length = query.questionEnd + query.tail.length := by
  unfold bytes questionEnd tail
  rw [List.length_append, List.length_append, length_header]
  omega

/-- The fields behind the name. -/
theorem question_fields : readU16 query.bytes query.nameEnd = .ok query.qtype.toNat ∧
    readU16 query.bytes (query.nameEnd + 2) = .ok 1 := by
  have hqtype := query.qtype.isLt
  have hbytes : query.bytes = (query.header ++ (labelBytes query.labels ++ [0])) ++ (toBE 2 query.qtype.toNat
      ++ (toBE 2 1 ++ query.tail)) := by
    unfold bytes question tail
    simp only [List.append_assoc]
  have hlength : (query.header ++ (labelBytes query.labels ++ [0])).length = query.nameEnd := by
    rw [List.length_append, List.length_append, length_header]
    rfl
  have hdrop : query.bytes.drop query.nameEnd = toBE 2 query.qtype.toNat ++ (toBE 2 1 ++ query.tail) := by
    rw [hbytes, ← hlength, List.drop_left]
  obtain ⟨hread, hrest⟩ := readU16_of_drop hdrop hqtype
  exact ⟨hread, (readU16_of_drop hrest (by omega)).1⟩

/-- The Linux parser reads the name if it has no underscore. -/
theorem linux_decodeName : Linux.decodeName query.bytes DNS_HEADER =
    if ∀ label ∈ query.labels, label.all Linux.isLabelByte = true then .ok (query.name, query.nameEnd)
    else .error (.refused .invalid) := by
  have h := @Linux.decodeNameFrom_labels query.labels query.valid query.header
    (toBE 2 query.qtype.toNat ++ toBE 2 1 ++ query.tail) [] 0 (by rw [Nat.zero_add]; exact query.expanded)
  have hbytes : query.bytes = query.header ++ (labelBytes query.labels ++ ([0]
      ++ (toBE 2 query.qtype.toNat ++ toBE 2 1 ++ query.tail))) := by
    unfold bytes question tail
    simp only [List.append_assoc]
  rw [← hbytes, length_header] at h
  exact h

theorem android_decodeName : Android.decodeName query.bytes DNS_HEADER = .ok (query.name, query.nameEnd) := by
  have h := @Android.decodeNameFrom_labels query.labels query.valid query.header
    (toBE 2 query.qtype.toNat ++ toBE 2 1 ++ query.tail) [] 0 (by rw [Nat.zero_add]; exact query.expanded)
  have hbytes : query.bytes = query.header ++ (labelBytes query.labels ++ ([0]
      ++ (toBE 2 query.qtype.toNat ++ toBE 2 1 ++ query.tail))) := by
    unfold bytes question tail
    simp only [List.append_assoc]
  rw [← hbytes, length_header] at h
  exact h

theorem twelve_le_length : DNS_HEADER ≤ query.bytes.length := by
  rw [length_bytes, questionEnd_eq]
  unfold nameEnd
  omega

/-- The masks of both parsers let the flags of a standard query pass. -/
theorem flags_pass : query.flags.toNat &&& 0x8000 = 0 ∧ query.flags.toNat &&& 0x7800 = 0 ∧
    query.flags.toNat &&& 0xf800 = 0 := by
  have hmask : ∀ k, query.flags.toNat &&& (k * 2 ^ 11) = 0 := by
    intro k
    have hlt := query.flags.isLt
    refine Nat.eq_of_testBit_eq fun i => ?_
    rw [Nat.testBit_and, Nat.zero_testBit, Nat.testBit_mul_two_pow, Bool.and_eq_false_iff]
    by_cases hi : 11 ≤ i
    · exact .inl (Nat.testBit_lt_two_pow (hlt.trans_le (Nat.pow_le_pow_right (by omega) hi)))
    · exact .inr (by simp [hi])
  exact ⟨hmask 16, hmask 15, hmask 31⟩

/-- The version byte of an OPT record's TTL lies between the extended code and the flags. -/
theorem version_mask (code : Nat) {flags : Nat} (hflags : flags < 2 ^ 16) :
    (code * 2 ^ 24 + flags) &&& 0x00ff0000 = 0 := by
  refine Nat.eq_of_testBit_eq fun i => ?_
  rw [show 0x00ff0000 = 255 * 2 ^ 16 from rfl, Nat.testBit_and, Nat.testBit_mul_two_pow, Nat.zero_testBit]
  by_cases hi : 16 ≤ i ∧ i < 24
  · obtain ⟨j, rfl⟩ := Nat.exists_eq_add_of_le' hi.1
    have hzero : (code * 2 ^ 24 + flags) / 2 ^ 16 = code * 2 ^ 8 := by omega
    rw [← Nat.testBit_div_two_pow, hzero, Nat.testBit_mul_two_pow, decide_eq_false (by omega)]
    rfl
  · by_cases hlow : 16 ≤ i
    · have hsmall : 255 < 2 ^ (i - 16) :=
        (by omega : 255 < 2 ^ 8).trans_le (Nat.pow_le_pow_right (by omega) (by omega))
      rw [Nat.testBit_lt_two_pow hsmall, Bool.and_false, Bool.and_false]
    · rw [decide_eq_false hlow, Bool.false_and, Bool.and_false]

/-- The additional records of a standard query, as the Linux parser reads them. -/
theorem linux_readAdditional : ∃ udpLimit,
    Linux.readAdditional query.bytes query.additional query.questionEnd 512 false =
      .ok (query.bytes.length, udpLimit) := by
  have hlength := query.length_bytes
  have hbytes : query.bytes.drop query.questionEnd = query.tail := by
    have hfront : (query.header ++ query.question).length = query.questionEnd := by
      rw [List.length_append, length_header]
      rfl
    have hall : query.bytes = (query.header ++ query.question) ++ query.tail := by
      unfold bytes tail
      rw [List.append_assoc]
    rw [hall, ← hfront, List.drop_left]
  unfold additional
  unfold tail at hlength hbytes
  cases hopt : query.opt with
  | none =>
      rw [hopt] at hlength
      refine ⟨512, ?_⟩
      rw [hlength]
      rfl
  | some opt =>
      rw [hopt] at hlength hbytes
      replace hbytes : query.bytes.drop query.questionEnd = opt.bytes := hbytes
      replace hlength : query.bytes.length = query.questionEnd + opt.bytes.length := hlength
      have hopt : opt.bytes.length = 11 + opt.data.length := by
        unfold Opt.bytes
        simp only [List.length_append, List.length_cons, List.length_nil, length_toBE]
        omega
      generalize query.questionEnd = start at *
      generalize query.bytes = message at *
      -- the owner is the root
      have howner : Linux.decodeName message start = .ok ([], start + 1) := by
        have hroot : message[start]? = some 0 := by
          rw [← List.head?_drop, hbytes]
          rfl
        unfold Linux.decodeName Linux.decodeNameFrom
        split
        · next hnone => cases hnone.symm.trans hroot
        next length hzero =>
        cases hzero.symm.trans hroot
        rfl
      have hrest : message.drop (start + 1) = toBE 2 41 ++ (toBE 2 opt.udpSize.toNat ++ ([opt.extendedRcode, 0]
          ++ toBE 2 opt.flags.toNat ++ (toBE 2 opt.data.length ++ opt.data))) :=
        drop_of_drop hbytes rfl
      obtain ⟨htype, hrest⟩ := readU16_of_drop hrest (by omega)
      obtain ⟨hclass, hrest⟩ := readU16_of_drop hrest opt.udpSize.isLt
      have httl : slice message (start + 1 + 4) (start + 1 + 8) =
          [opt.extendedRcode, 0] ++ toBE 2 opt.flags.toNat :=
        slice_of_drop hrest (by rw [List.length_append, length_toBE]; rfl)
      have hrest : message.drop (start + 1 + 8) = toBE 2 opt.data.length ++ opt.data :=
        drop_of_drop hrest (by rw [List.length_append, length_toBE]; rfl)
      obtain ⟨hdata, -⟩ := readU16_of_drop hrest opt.length_data
      -- the version is the second byte of the TTL
      have hversion : ofBE ([opt.extendedRcode, 0] ++ toBE 2 opt.flags.toNat) &&& 0x00ff0000 = 0 := by
        have hflags := opt.flags.isLt
        have hrcode := opt.extendedRcode.toNat_lt
        have hvalue : ofBE ([opt.extendedRcode, 0] ++ toBE 2 opt.flags.toNat) =
            opt.extendedRcode.toNat * 2 ^ 24 + opt.flags.toNat := by
          simp only [ofBE, toBE_two, List.cons_append, List.nil_append, List.foldl_cons, List.foldl_nil,
            UInt8.toNat_ofNat', UInt8.toNat_zero]
          omega
        rw [hvalue]
        exact version_mask _ (by omega)
      refine ⟨max 512 (min opt.udpSize.toNat 1232), ?_⟩
      show Linux.readAdditional message 1 start 512 false = _
      rw [Linux.readAdditional, howner, ok_bind]
      dsimp only
      rw [decide_eq_false (by omega : ¬ message.length < start + 1 + 10), guard_false, htype, ok_bind, hclass,
        ok_bind, sliceAt_of_le (by omega) (by omega), ok_bind, httl, hdata, ok_bind,
        decide_eq_false (by omega : ¬ message.length < start + 1 + 10 + opt.data.length), guard_false, hversion]
      rw [show (decide (41 ≠ 41) || decide (([] : Bytes) ≠ []) || false || decide (0 ≠ 0)) = false from rfl,
        guard_false, Linux.readAdditional, hlength, hopt]
      refine congrArg (fun n => Except.ok (n, _)) ?_
      omega

/-- No label has an underscore. -/
def Plain : Prop := ∀ label ∈ query.labels, (95 : UInt8) ∉ label

/-- The Linux alphabet is the Android alphabet without the underscore. -/
theorem plain_iff : query.Plain ↔ ∀ label ∈ query.labels, label.all Linux.isLabelByte = true := by
  refine forall₂_congr fun label hlabel => ?_
  have hbytes := (query.valid label hlabel).bytes
  rw [List.all_eq_true]
  constructor
  · intro h byte hbyte
    have hallowed := hbytes byte hbyte
    have hne : byte ≠ 95 := fun heq => h (heq ▸ hbyte)
    unfold Android.isLabelByte at hallowed
    rw [decide_eq_false hne, Bool.or_false] at hallowed
    exact hallowed
  · intro h hmem
    exact absurd (h 95 hmem) (by decide)

/-- **The Linux parser on a standard query.** -/
theorem linux_parseQuestion (hlength : query.bytes.length ≤ MAX_DNS_MESSAGE) :
    (query.Plain → ∃ read, Linux.parseQuestion query.bytes = .ok read ∧ read.name = query.name ∧
      read.qtype = query.qtype.toNat ∧ read.wireEnd = query.questionEnd) ∧
    (¬ query.Plain → Linux.parseQuestion query.bytes = .error (.refused .invalid)) := by
  obtain ⟨hid, hflags, h4, h6, h8, h10⟩ := query.header_fields
  obtain ⟨hqtype, hclass⟩ := query.question_fields
  obtain ⟨hresponse, hopcode, -⟩ := query.flags_pass
  have htwelve := query.twelve_le_length
  have hhead : Linux.parseQuestion query.bytes =
      (Linux.decodeName query.bytes DNS_HEADER >>= fun decoded => do
        checked (rejectIf (query.bytes.length < decoded.2 + 4) .invalid)
        let qtype ← readU16 query.bytes decoded.2
        checked (rejectIf ((← readU16 query.bytes (decoded.2 + 2)) ≠ 1) .invalid)
        let read ← Linux.readAdditional query.bytes query.additional (decoded.2 + 4) 512 false
        checked (rejectIf (read.1 ≠ query.bytes.length) .invalid)
        return { id := query.id.toNat, flags := query.flags.toNat, name := decoded.1, qtype
                 wireEnd := decoded.2 + 4, udpLimit := read.2 }) := by
    unfold Linux.parseQuestion
    rw [decide_eq_false (Nat.not_lt.mpr htwelve), decide_eq_false (Nat.not_lt.mpr hlength), Bool.or_false,
      guard_false, hflags, ok_bind, hresponse, hopcode, h4, h6, h8, h10, hid]
    rfl
  rw [hhead, query.linux_decodeName]
  rw [plain_iff]
  refine ⟨fun hplain => ?_, fun hother => by rw [if_neg hother]; rfl⟩
  obtain ⟨udpLimit, hadditional⟩ := query.linux_readAdditional
  have hroom : ¬ query.bytes.length < query.nameEnd + 4 := by
    rw [length_bytes, questionEnd_eq]
    omega
  rw [questionEnd_eq] at hadditional
  rw [if_pos hplain, ok_bind]
  dsimp only
  rw [decide_eq_false hroom, guard_false, hqtype, ok_bind, hclass, ok_bind, hadditional]
  simp only [ne_eq, not_true_eq_false, decide_false, guard_false, ok_bind]
  exact ⟨{ id := query.id.toNat, flags := query.flags.toNat, name := query.name
           qtype := query.qtype.toNat, wireEnd := query.nameEnd + 4, udpLimit },
    rfl, rfl, rfl, query.questionEnd_eq.symm⟩

/-- **The Android parser on a standard query.** -/
theorem android_parseQuestion (hlength : query.bytes.length ≤ MAX_DNS_MESSAGE) :
    ∃ read, Android.parseQuestion query.bytes = .ok read ∧ read.name = query.name ∧
      read.qtype = query.qtype.toNat ∧ read.end = query.questionEnd := by
  obtain ⟨-, hflags, h4, h6, h8, h10⟩ := query.header_fields
  obtain ⟨hqtype, hclass⟩ := query.question_fields
  obtain ⟨-, -, hmask⟩ := query.flags_pass
  have htwelve := query.twelve_le_length
  have hone : ¬ 1 < query.additional := by
    unfold additional
    split <;> omega
  have hroom : ¬ query.bytes.length < query.nameEnd + 4 := by
    rw [length_bytes, questionEnd_eq]
    omega
  unfold Android.parseQuestion
  rw [decide_eq_false (Nat.not_lt.mpr htwelve), decide_eq_false (Nat.not_lt.mpr hlength), Bool.or_false,
    guard_false, hflags, ok_bind, hmask, h4, h6, h8, h10, query.android_decodeName]
  simp only [ne_eq, not_true_eq_false, decide_false, guard_false, ok_bind, hone, hroom, hqtype, hclass]
  exact ⟨_, rfl, rfl, rfl, query.questionEnd_eq.symm⟩

/-- Both parsers accept the query and read the same question. -/
def Agreed : Prop :=
  ∃ linux android, Linux.parseQuestion query.bytes = .ok linux ∧
    Android.parseQuestion query.bytes = .ok android ∧
    linux.name = query.name ∧ android.name = query.name ∧
    linux.qtype = query.qtype.toNat ∧ android.qtype = query.qtype.toNat ∧
    linux.wireEnd = query.questionEnd ∧ android.end = query.questionEnd

end StandardQuery

/-- Neither parser reads outside any message; and they agree on a standard query exactly when it has no
underscore, the Linux parser refusing it otherwise. -/
theorem parsers_agree (message : Bytes) (start : Nat) (query : StandardQuery) :
    (Inside (Linux.decodeName message start) ∧ Inside (Android.decodeName message start) ∧
      Inside (Linux.parseQuestion message) ∧ Inside (Android.parseQuestion message)) ∧
    (query.bytes.length ≤ MAX_DNS_MESSAGE → (query.Agreed ↔ query.Plain)) := by
  refine ⟨⟨Linux.decodeNameFrom_inside .., Android.decodeNameFrom_inside ..,
    Linux.parseQuestion_inside _, Android.parseQuestion_inside _⟩, fun hlength => ⟨?_, fun hplain => ?_⟩⟩
  · rintro ⟨linux, android, hlinux, -⟩
    by_contra hother
    cases hlinux.symm.trans ((query.linux_parseQuestion hlength).2 hother)
  · obtain ⟨linux, hlinux, hname, hqtype, hend⟩ := (query.linux_parseQuestion hlength).1 hplain
    obtain ⟨android, handroid, hname', hqtype', hend'⟩ := query.android_parseQuestion hlength
    exact ⟨linux, android, hlinux, handroid, hname, hname', hqtype, hqtype', hend, hend'⟩

/-- The service record query for `_dns.resolver.arpa` of the Android parser's own test. -/
def serviceQuery : StandardQuery where
  id := 1
  flags := 0x100
  labels := [[95, 100, 110, 115], [114, 101, 115, 111, 108, 118, 101, 114], [97, 114, 112, 97]]
  valid := by
    intro label hlabel
    simp only [List.mem_cons, List.not_mem_nil, or_false] at hlabel
    obtain rfl | rfl | rfl := hlabel <;> exact ⟨by decide, by decide, by decide +kernel⟩
  expanded := by decide
  qtype := 33
  opt := none

/-- The Linux parser refuses it. -/
theorem service_query_refused : serviceQuery.bytes.length ≤ MAX_DNS_MESSAGE ∧ ¬ serviceQuery.Agreed := by
  refine ⟨by decide, ?_⟩
  rintro ⟨linux, android, hlinux, -⟩
  have hrefused := (serviceQuery.linux_parseQuestion (by decide)).2
    fun h => h _ List.mem_cons_self List.mem_cons_self
  cases hlinux.symm.trans hrefused

/-- The same query without the underscore. -/
def hostQuery : StandardQuery where
  id := 1
  flags := 0x100
  labels := [[114, 101, 115, 111, 108, 118, 101, 114], [97, 114, 112, 97]]
  valid := by
    intro label hlabel
    simp only [List.mem_cons, List.not_mem_nil, or_false] at hlabel
    obtain rfl | rfl := hlabel <;> exact ⟨by decide, by decide, by decide +kernel⟩
  expanded := by decide
  qtype := 1
  opt := some { udpSize := 1232, extendedRcode := 0, flags := 0x8000, data := [], length_data := by decide }

theorem parsers_agree_host : hostQuery.Agreed :=
  ((parsers_agree [] 0 hostQuery).2 (by decide)).mpr (by unfold StandardQuery.Plain; decide)

end Peerward.Dns
