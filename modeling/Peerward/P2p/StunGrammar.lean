import Peerward.P2p.Stun

/-!
# What the STUN client accepts

The loop over the attributes reads a sequence of padded attributes or refuses; which it does depends on
the bytes behind the cursor only. From this, a response is accepted exactly when it is a `Response`.
-/

namespace Peerward.P2p

open Peerward.Lib Peerward.Lib.Bounded Peerward.Net
open Peerward.PeerCore (SocketAddr)

variable {transaction bytes : Bytes}

/-! ## Attributes in order

What reading a sequence of attributes makes of the address found so far: comprehension is required of some
attributes, and a second address is refused.
-/

/-- What an attribute does to the address that has been found. -/
inductive Takes (transaction : Bytes) (kind : Nat) (value : Bytes) :
    Option Mapped → Option Mapped → Prop
  | other {mapped : Option Mapped} (hkind : kind ≠ XOR_MAPPED_ADDRESS) :
      Takes transaction kind value mapped mapped
  | address {address : Mapped} (hkind : kind = XOR_MAPPED_ADDRESS)
      (hvalue : value = xorAddress transaction address) (husable : unusable address = false) :
      Takes transaction kind value none (some address)

/-- What a sequence of attributes does. -/
inductive Collects (transaction : Bytes) : Option Mapped → List Tlv → Option Mapped → Prop
  | nil {mapped : Option Mapped} : Collects transaction mapped [] mapped
  | cons {mapped next last : Option Mapped} {t : Tlv} {attributes : List Tlv}
      (head : Takes transaction t.kind t.value mapped next)
      (tail : Collects transaction next attributes last) :
      Collects transaction mapped (t :: attributes) last

/-- A value belongs to one address. -/
theorem xorAddress_injective (htransaction : transaction.length = 12) {a b : Mapped}
    (h : xorAddress transaction a = xorAddress transaction b) : a = b := by
  have ha := decode_xorAddress htransaction a
  rw [h, decode_xorAddress htransaction b] at ha
  exact (Except.ok.inj ha).symm

theorem Takes.functional (htransaction : transaction.length = 12) {kind : Nat} {value : Bytes}
    {mapped next next' : Option Mapped} (h : Takes transaction kind value mapped next)
    (h' : Takes transaction kind value mapped next') : next = next' := by
  cases h with
  | other hkind =>
      cases h' with
      | other => rfl
      | address hkind' => exact absurd hkind' hkind
  | address hkind hvalue =>
      cases h' with
      | other hkind' => exact absurd hkind hkind'
      | address _ hvalue' => rw [xorAddress_injective htransaction (hvalue.symm.trans hvalue')]

theorem readAttribute_spec (htransaction : transaction.length = 12) {kind start stop : Nat}
    (hstart : start ≤ stop) (hstop : stop ≤ bytes.length) (mapped : Option Mapped) :
    (∃ next, Takes transaction kind (slice bytes start stop) mapped next ∧
      readAttribute transaction bytes kind start stop mapped = .ok next) ∨
    (readAttribute transaction bytes kind start stop mapped = .error (.refused .stun) ∧
      ∀ next, ¬ Takes transaction kind (slice bytes start stop) mapped next) := by
  unfold readAttribute
  by_cases hkind : kind = XOR_MAPPED_ADDRESS
  · rw [if_pos hkind, sliceAt_of_le hstart hstop]
    cases mapped with
    | some earlier =>
        refine .inr ⟨rfl, fun next h => ?_⟩
        cases h with
        | other hother => exact hother hkind
    | none =>
        obtain ⟨address, hvalue, hdecode⟩ | ⟨hdecode, hno⟩ :=
          decodeXorAddress_spec htransaction (slice bytes start stop)
        · by_cases husable : unusable address = false
          · refine .inl ⟨some address, .address hkind hvalue husable, ?_⟩
            simp only [ok_bind, hdecode, husable]
            rfl
          · refine .inr ⟨?_, fun next h => ?_⟩
            · rw [Bool.not_eq_false] at husable
              simp only [ok_bind, hdecode, husable]
              rfl
            · cases h with
              | other hother => exact hother hkind
              | address _ hvalue' husable' =>
                  exact husable (xorAddress_injective htransaction (hvalue'.symm.trans hvalue) ▸ husable')
        · refine .inr ⟨?_, fun next h => ?_⟩
          · simp only [ok_bind, hdecode]
            rfl
          · cases h with
            | other hother => exact hother hkind
            | address _ hvalue' _ => exact hno _ hvalue'
  · rw [if_neg hkind]
    exact .inl ⟨mapped, .other hkind, rfl⟩

/-! ## The walk

The loop moves a cursor over bytes that may not be attributes at all. At every place it either finds one and
goes on behind it, or refuses.
-/

theorem length_tlv (t : Tlv) :
    t.bytes.length = 4 + t.value.length + (4 - t.value.length % 4) % 4 := by
  simp only [Tlv.bytes, List.length_append, length_toBE, t.length_padding]
  omega

/-- The fields of an attribute at a cursor. -/
theorem attribute_at {t : Tlv} {rest : Bytes} {cursor : Nat} (h : bytes.drop cursor = t.bytes ++ rest) :
    ofBE (slice bytes cursor (cursor + 2)) = t.kind ∧
      ofBE (slice bytes (cursor + 2) (cursor + 2 + 2)) = t.value.length ∧
      slice bytes (cursor + 4) (cursor + 4 + t.value.length) = t.value ∧
      bytes.drop (cursor + 4 + t.value.length + (4 - t.value.length % 4) % 4) = rest ∧
      cursor + 4 + t.value.length + (4 - t.value.length % 4) % 4 ≤ bytes.length := by
  have hlength : (bytes.drop cursor).length = (t.bytes ++ rest).length := by rw [h]
  rw [List.length_append, length_tlv, List.length_drop] at hlength
  rw [Tlv.bytes, List.append_assoc, List.append_assoc, List.append_assoc] at h
  have hkind := drop_of_drop h (show cursor + _ = cursor + 2 by simp)
  have hsize := drop_of_drop hkind (show cursor + 2 + _ = cursor + 4 by simp)
  have hvalue := drop_of_drop hsize (show cursor + 4 + _ = cursor + 4 + t.value.length from rfl)
  have hrest := drop_of_drop hvalue (show cursor + 4 + t.value.length + _ =
    cursor + 4 + t.value.length + (4 - t.value.length % 4) % 4 by rw [t.length_padding])
  refine ⟨?_, ?_, slice_of_drop hsize rfl, hrest, by omega⟩
  · rw [slice_of_drop h (by simp), ofBE_toBE_of_lt t.kind_lt]
  · rw [slice_of_drop hkind (by simp), ofBE_toBE_of_lt t.length_lt]

theorem ofBE_slice_lt {start : Nat} : ofBE (slice bytes start (start + 2)) < 2 ^ 16 := by
  have hlt := ofBE_lt (slice bytes start (start + 2))
  have hle : (slice bytes start (start + 2)).length ≤ 2 := by
    rw [length_slice]
    omega
  exact hlt.trans_le ((Nat.pow_le_pow_right (by omega) hle).trans_eq (by norm_num))

/-- The attribute at a cursor that has room for it. -/
theorem exists_attribute {cursor size : Nat} (hsize : size = ofBE (slice bytes (cursor + 2) (cursor + 2 + 2)))
    (hroom : cursor + 4 + size + (4 - size % 4) % 4 ≤ bytes.length) :
    ∃ t : Tlv, t.kind = ofBE (slice bytes cursor (cursor + 2)) ∧ t.value.length = size ∧
      t.value = slice bytes (cursor + 4) (cursor + 4 + size) ∧
      bytes.drop cursor = t.bytes ++ bytes.drop (cursor + 4 + size + (4 - size % 4) % 4) := by
  have hvalue : (slice bytes (cursor + 4) (cursor + 4 + size)).length = size := by
    rw [length_slice]
    omega
  have hlt : size < 2 ^ 16 := hsize ▸ ofBE_slice_lt
  refine ⟨⟨ofBE (slice bytes cursor (cursor + 2)), slice bytes (cursor + 4) (cursor + 4 + size),
    slice bytes (cursor + 4 + size) (cursor + 4 + size + (4 - size % 4) % 4), ofBE_slice_lt,
    by rw [hvalue]; exact hlt, ?_⟩, rfl, hvalue, rfl, ?_⟩
  · rw [length_slice, hvalue]
    omega
  · have hkind : toBE 2 (ofBE (slice bytes cursor (cursor + 2))) = slice bytes cursor (cursor + 2) :=
      toBE_ofBE_of_length (by rw [length_slice]; omega)
    have hlength : toBE 2 size = slice bytes (cursor + 2) (cursor + 4) := by
      rw [hsize]
      exact toBE_ofBE_of_length (by rw [length_slice]; omega)
    simp only [Tlv.bytes, hvalue, hkind, hlength, List.append_assoc]
    rw [← drop_eq_slice_append bytes (by omega), ← drop_eq_slice_append bytes (by omega),
      ← drop_eq_slice_append bytes (by omega), ← drop_eq_slice_append bytes (by omega)]

/-- Where bytes are left, a sequence has a first attribute. -/
theorem collects_head {cursor : Nat} (hmore : cursor < bytes.length) {mapped last : Option Mapped}
    {attributes : List Tlv} (hbytes : bytes.drop cursor = attributes.flatMap Tlv.bytes)
    (h : Collects transaction mapped attributes last) : ∃ (t : Tlv) (rest : List Tlv) (next : Option Mapped),
      bytes.drop cursor = t.bytes ++ rest.flatMap Tlv.bytes ∧
      Takes transaction t.kind t.value mapped next ∧ Collects transaction next rest last := by
  cases h with
  | nil =>
      have hlength : (bytes.drop cursor).length = 0 := by rw [hbytes]; rfl
      rw [List.length_drop] at hlength
      omega
  | cons head tail => exact ⟨_, _, _, by rw [hbytes, List.flatMap_cons], head, tail⟩

/-- An outcome is the result that a relation allows, or a refusal. -/
def Decides {A : Type} (outcome : Except Stop A) (P : A → Prop) : Prop :=
  outcome ≠ .error .outOfBounds ∧ ∀ a, outcome = .ok a ↔ P a

theorem decides_refused {A : Type} {P : A → Prop} (h : ∀ a, ¬ P a) :
    Decides (.error (.refused .stun)) P :=
  ⟨nofun, fun a => ⟨nofun, fun ha => absurd ha (h a)⟩⟩

theorem decides_guard {A : Type} {P : A → Prop} {bad : Bool} {next : Unit → Except Stop A}
    (hbad : bad = true → ∀ a, ¬ P a) (hgood : bad = false → Decides (next ()) P) :
    Decides (checked (rejectIf bad .stun) >>= next) P := by
  cases bad with
  | true => exact decides_refused (hbad rfl)
  | false => exact hgood rfl

/-- **The walk reads attributes or refuses**, and does not leave the bytes. -/
theorem walk_spec (htransaction : transaction.length = 12) :
    ∀ left cursor mapped, bytes.length = cursor + left →
      Decides (walk transaction bytes cursor mapped) fun last =>
        ∃ attributes, bytes.drop cursor = attributes.flatMap Tlv.bytes ∧
          Collects transaction mapped attributes last := by
  intro left
  induction left using Nat.strongRecOn with
  | ind left ih =>
  intro cursor mapped hleft
  rw [walk]
  by_cases hmore : cursor < bytes.length
  · rw [dif_pos hmore]
    by_cases hheader : bytes.length < cursor + 4
    · rw [decide_eq_true hheader]
      refine decides_refused fun last ⟨attributes, hbytes, hcollects⟩ => ?_
      obtain ⟨t, rest, next, hfirst, -, -⟩ := collects_head hmore hbytes hcollects
      have := (attribute_at hfirst).2.2.2.2
      omega
    · rw [decide_eq_false hheader, u16At_of_le (by omega), u16At_of_le (by omega)]
      generalize hsize : ofBE (slice bytes (cursor + 2) (cursor + 2 + 2)) = size
      generalize hkind : ofBE (slice bytes cursor (cursor + 2)) = kind
      -- any first attribute is the one of the header
      have hfields : ∀ (t : Tlv) (rest : Bytes), bytes.drop cursor = t.bytes ++ rest → t.kind = kind ∧
          t.value.length = size ∧ t.value = slice bytes (cursor + 4) (cursor + 4 + size) ∧
          rest = bytes.drop (cursor + 4 + size + (4 - size % 4) % 4) ∧
          cursor + 4 + size + (4 - size % 4) % 4 ≤ bytes.length := by
        intro t rest hfirst
        obtain ⟨hk, hs, hvalue, hrest, hroom⟩ := attribute_at hfirst
        rw [← hs, hsize] at hvalue hrest hroom
        exact ⟨hk.symm.trans hkind, hs.symm.trans hsize, hvalue.symm, hrest.symm, hroom⟩
      simp only [ok_bind, guard_false]
      by_cases hstop : bytes.length < cursor + 4 + size
      · rw [decide_eq_true hstop]
        refine decides_refused fun last ⟨attributes, hbytes, hcollects⟩ => ?_
        obtain ⟨t, rest, next, hfirst, -, -⟩ := collects_head hmore hbytes hcollects
        have := (hfields t _ hfirst).2.2.2.2
        omega
      · simp only [decide_eq_false hstop, guard_false]
        obtain ⟨next, htakes, hread⟩ | ⟨hread, hno⟩ := @readAttribute_spec _ _ htransaction kind _ _
          (show cursor + 4 ≤ cursor + 4 + size by omega) (Nat.not_lt.mp hstop) mapped
        · rw [hread, ok_bind]
          by_cases hpadding : bytes.length < cursor + 4 + size + (4 - size % 4) % 4
          · rw [decide_eq_true hpadding]
            refine decides_refused fun last ⟨attributes, hbytes, hcollects⟩ => ?_
            obtain ⟨t, rest, next, hfirst, -, -⟩ := collects_head hmore hbytes hcollects
            have := (hfields t _ hfirst).2.2.2.2
            omega
          · rw [decide_eq_false hpadding, guard_false]
            obtain ⟨t, hk, hs, hvalue, hfirst⟩ := exists_attribute hsize.symm (Nat.not_lt.mp hpadding)
            rw [hkind] at hk
            obtain ⟨hinside, hwalk⟩ := ih (left - (4 + size + (4 - size % 4) % 4)) (by omega)
              (cursor + 4 + size + (4 - size % 4) % 4) next (by omega)
            refine ⟨hinside, fun last => (hwalk last).trans ⟨?_, ?_⟩⟩
            · rintro ⟨attributes, hrest, htail⟩
              rw [← hk, ← hvalue] at htakes
              exact ⟨t :: attributes, by rw [List.flatMap_cons, ← hrest, hfirst], .cons htakes htail⟩
            · rintro ⟨attributes, hbytes, hcollects⟩
              obtain ⟨t', rest, next', hfirst', htakes', htail⟩ := collects_head hmore hbytes hcollects
              obtain ⟨hk', -, hvalue', hrest, -⟩ := hfields t' _ hfirst'
              rw [hk', hvalue'] at htakes'
              exact ⟨rest, hrest.symm, htakes'.functional htransaction htakes ▸ htail⟩
        · rw [hread]
          refine decides_refused fun last ⟨attributes, hbytes, hcollects⟩ => ?_
          obtain ⟨t, rest, next, hfirst, htakes, -⟩ := collects_head hmore hbytes hcollects
          obtain ⟨rfl, -, hvalue, -, -⟩ := hfields t _ hfirst
          exact hno next (hvalue ▸ htakes)
  · rw [dif_neg hmore]
    have hempty : bytes.drop cursor = [] := List.drop_eq_nil_of_le (by omega)
    refine ⟨nofun, fun last => ⟨fun h => ?_, ?_⟩⟩
    · cases h
      exact ⟨[], hempty, .nil⟩
    · rintro ⟨attributes, hbytes, hcollects⟩
      cases hcollects with
      | nil => rfl
      | @cons _ _ _ t attributes head tail =>
          have hlength : (bytes.drop cursor).length = (t.bytes ++ attributes.flatMap Tlv.bytes).length := by
            rw [hbytes, List.flatMap_cons]
          rw [hempty, List.length_append, length_tlv] at hlength
          simp only [List.length_nil] at hlength
          omega

/-! ## Responses

The header's length is checked before the walk, so the walk ends where the bytes do, and an accepted
response is exactly what the grammar derives.
-/

/-- Behind the attribute that names an address, none does. -/
theorem collects_some {attributes : List Tlv} {address last : Mapped} :
    Collects transaction (some address) attributes (some last) ↔
      attributes.filter (·.kind = XOR_MAPPED_ADDRESS) = [] ∧ last = address := by
  induction attributes with
  | nil =>
      constructor
      · intro h
        cases h
        exact ⟨rfl, rfl⟩
      · rintro ⟨-, rfl⟩
        exact .nil
  | cons t attributes ih =>
      constructor
      · intro h
        obtain _ | ⟨head, tail⟩ := h
        cases head with
        | other hkind =>
            obtain ⟨hrest, hlast⟩ := ih.mp tail
            exact ⟨by rw [List.filter_cons_of_neg (by simpa using hkind), hrest], hlast⟩
      · rintro ⟨hfilter, hlast⟩
        have hkind : t.kind ≠ XOR_MAPPED_ADDRESS := by
          intro hkind
          rw [List.filter_cons_of_pos (by simpa using hkind)] at hfilter
          cases hfilter
        rw [List.filter_cons_of_neg (by simpa using hkind)] at hfilter
        exact .cons (.other hkind) (ih.mpr ⟨hfilter, hlast⟩)

/-- Exactly one attribute names an address. -/
theorem collects_none {attributes : List Tlv} {address : Mapped} :
    Collects transaction none attributes (some address) ↔ unusable address = false ∧
      ∃ t : Tlv, attributes.filter (·.kind = XOR_MAPPED_ADDRESS) = [t] ∧
        t.value = xorAddress transaction address := by
  induction attributes with
  | nil =>
      constructor
      · intro h
        cases h
      · rintro ⟨-, t, hfilter, -⟩
        cases hfilter
  | cons t attributes ih =>
      constructor
      · intro h
        obtain _ | ⟨head, tail⟩ := h
        cases head with
        | other hkind =>
            rw [List.filter_cons_of_neg (by simpa using hkind)]
            exact ih.mp tail
        | address hkind hvalue husable =>
            obtain ⟨hrest, rfl⟩ := collects_some.mp tail
            exact ⟨husable, t, by rw [List.filter_cons_of_pos (by simpa using hkind), hrest], hvalue⟩
      · rintro ⟨husable, one, hfilter, hvalue⟩
        by_cases hkind : t.kind = XOR_MAPPED_ADDRESS
        · rw [List.filter_cons_of_pos (by simpa using hkind)] at hfilter
          obtain ⟨rfl, hrest⟩ := List.cons.inj hfilter
          exact .cons (.address hkind hvalue husable) (collects_some.mpr ⟨hrest, rfl⟩)
        · rw [List.filter_cons_of_neg (by simpa using hkind)] at hfilter
          exact .cons (.other hkind) (ih.mpr ⟨husable, one, hfilter, hvalue⟩)

/-- A response is its header and what is behind it. -/
theorem header_iff {body : Bytes} (htransaction : transaction.length = 12)
    (hlength : 20 ≤ bytes.length) (hbody : body.length < 2 ^ 16) :
    bytes = toBE 2 STUN_BINDING_SUCCESS ++ (toBE 2 body.length ++ (toBE 4 STUN_MAGIC
      ++ (transaction ++ body))) ↔
    ofBE (slice bytes 0 2) = STUN_BINDING_SUCCESS ∧ ofBE (slice bytes 4 8) = STUN_MAGIC ∧
      slice bytes 8 20 = transaction ∧ ofBE (slice bytes 2 4) + 20 = bytes.length ∧
      bytes.drop 20 = body := by
  constructor
  · intro h
    have h0 : bytes.drop 0 = toBE 2 STUN_BINDING_SUCCESS ++ (toBE 2 body.length ++ (toBE 4 STUN_MAGIC
      ++ (transaction ++ body))) := h
    have h2 := drop_of_drop h0 (show 0 + _ = 2 by simp)
    have h4 := drop_of_drop h2 (show 2 + _ = 4 by simp)
    have h8 := drop_of_drop h4 (show 4 + _ = 8 by simp)
    have h20 := drop_of_drop h8 (show 8 + _ = 20 by rw [htransaction])
    have hsize : bytes.length = body.length + 20 := by
      rw [h]
      simp only [List.length_append, length_toBE, htransaction]
      omega
    refine ⟨?_, ?_, slice_of_drop h8 (by rw [htransaction]), ?_, h20⟩
    · rw [slice_of_drop h0 (by simp), ofBE_toBE_of_lt (by decide)]
    · rw [slice_of_drop h4 (by simp), ofBE_toBE_of_lt (by decide)]
    · rw [slice_of_drop h2 (by simp), ofBE_toBE_of_lt hbody, hsize]
  · rintro ⟨hkind, hmagic, htrans, hsize, rfl⟩
    have hlen : ∀ start stop, start ≤ stop → stop ≤ 20 → (slice bytes start stop).length = stop - start := by
      intro start stop hle hstop
      rw [length_slice]
      omega
    have hbody' : (bytes.drop 20).length = ofBE (slice bytes 2 4) := by
      rw [List.length_drop]
      omega
    rw [hbody', ← hkind, ← hmagic, ← htrans, toBE_ofBE_of_length (hlen 0 2 (by omega) (by omega)),
      toBE_ofBE_of_length (hlen 2 4 (by omega) (by omega)),
      toBE_ofBE_of_length (hlen 4 8 (by omega) (by omega)), ← drop_eq_slice_append bytes (by omega),
      ← drop_eq_slice_append bytes (by omega), ← drop_eq_slice_append bytes (by omega),
      ← drop_eq_slice_append bytes (by omega), List.drop_zero]

/-- **What the client accepts.** -/
theorem parseResponse_spec (request : StunRequest) (bytes : Bytes) :
    Decides (parseResponse request bytes) (Response request bytes) := by
  unfold parseResponse
  by_cases hlength : 20 ≤ bytes.length ∧ bytes.length ≤ 1024
  · obtain ⟨hlong, hshort⟩ := hlength
    -- what the grammar says of a response of an allowed size, in the order of the checks
    have hbody : ∀ address, Response request bytes address ↔ unusable address = false ∧
        ∃ attributes : List Tlv, bytes.drop 20 = attributes.flatMap Tlv.bytes ∧
          (ofBE (slice bytes 0 2) = STUN_BINDING_SUCCESS ∧ ofBE (slice bytes 4 8) = STUN_MAGIC ∧
            slice bytes 8 20 = request.transaction ∧ ofBE (slice bytes 2 4) + 20 = bytes.length ∧
            ofBE (slice bytes 2 4) % 4 = 0) ∧
          ∃ t : Tlv, attributes.filter (·.kind = XOR_MAPPED_ADDRESS) = [t] ∧
            t.value = xorAddress request.transaction address := by
      intro address
      constructor
      · rintro ⟨-, -, husable, attributes, hbytes, hfour, hone⟩
        have hlt : (attributes.flatMap Tlv.bytes).length < 2 ^ 16 := by
          have hsize := congrArg List.length hbytes
          simp only [List.length_append, length_toBE, request.length_transaction] at hsize
          omega
        obtain ⟨hkind, hmagic, htransaction, hsize, hdrop⟩ :=
          (header_iff request.length_transaction hlong hlt).mp hbytes
        refine ⟨husable, attributes, hdrop, ⟨hkind, hmagic, htransaction, hsize, ?_⟩, hone⟩
        rw [← hdrop, List.length_drop] at hfour
        omega
      · rintro ⟨husable, attributes, hdrop, ⟨hkind, hmagic, htransaction, hsize, hfour⟩, hone⟩
        have hlength : (attributes.flatMap Tlv.bytes).length = ofBE (slice bytes 2 4) := by
          rw [← hdrop, List.length_drop]
          omega
        exact ⟨hlong, hshort, husable, attributes, (header_iff request.length_transaction hlong
          (by omega)).mpr ⟨hkind, hmagic, htransaction, hsize, hdrop⟩, by rw [hlength, hfour], hone⟩
    rw [u16At_of_le (by omega), sliceAt_of_le (by omega) (by omega), sliceAt_of_le (by omega) (by omega),
      u16At_of_le (by omega)]
    simp only [ok_bind, Nat.zero_add, Nat.reduceAdd]
    -- one goal for each check that may refuse, and then the walk
    refine decides_guard (fun hrange => by simp [hlong, hshort] at hrange) fun _ =>
      decides_guard (fun hkind address h => ?_) fun hkind =>
      decides_guard (fun hmagic address h => ?_) fun hmagic =>
      decides_guard (fun htransaction address h => ?_) fun htransaction =>
      decides_guard (fun hsize address h => ?_) fun hsize => ?_
    · obtain ⟨_, _, _, hheader, _⟩ := (hbody address).mp h
      exact of_decide_eq_true hkind hheader.1
    · obtain ⟨_, _, _, hheader, _⟩ := (hbody address).mp h
      exact of_decide_eq_true hmagic hheader.2.1
    · obtain ⟨_, _, _, hheader, _⟩ := (hbody address).mp h
      exact of_decide_eq_true htransaction hheader.2.2.1
    · obtain ⟨_, _, _, hheader, _⟩ := (hbody address).mp h
      simp [hheader.2.2.2.1, hheader.2.2.2.2] at hsize
    · obtain ⟨hinside, hwalk⟩ := @walk_spec _ bytes request.length_transaction
        (bytes.length - 20) 20 none (by omega)
      rw [decide_eq_false_iff_not, not_not] at hkind hmagic htransaction
      rw [Bool.or_eq_false_iff, decide_eq_false_iff_not, decide_eq_false_iff_not, not_not,
        not_not] at hsize
      -- with the header right, the walk decides
      have hdecide : ∀ address, walk request.transaction bytes 20 none = .ok (some address) ↔
          Response request bytes address := by
        intro address
        rw [hwalk, hbody]
        constructor
        · rintro ⟨attributes, hdrop, hcollects⟩
          obtain ⟨husable, hone⟩ := collects_none.mp hcollects
          exact ⟨husable, attributes, hdrop, ⟨hkind, hmagic, htransaction, hsize⟩, hone⟩
        · rintro ⟨husable, attributes, hdrop, -, hone⟩
          exact ⟨attributes, hdrop, collects_none.mpr ⟨husable, hone⟩⟩
      cases hresult : walk request.transaction bytes 20 none with
      | error stop =>
          cases stop with
          | outOfBounds => exact absurd hresult hinside
          | refused error =>
              refine ⟨nofun, fun address => ⟨nofun, fun h => ?_⟩⟩
              have hok := (hdecide address).mpr h
              rw [hresult] at hok
              cases hok
      | ok last =>
          cases last with
          | none =>
              refine decides_refused fun address h => ?_
              have hok := (hdecide address).mpr h
              rw [hresult] at hok
              cases hok
          | some found =>
              refine ⟨nofun, fun address => ?_⟩
              rw [← hdecide, hresult]
              exact ⟨fun h => by rw [Except.ok.inj h], fun h => by rw [Option.some.inj (Except.ok.inj h)]; rfl⟩
  · have hrange : (!(decide (20 ≤ bytes.length) && decide (bytes.length ≤ 1024))) = true := by
      rw [← Bool.decide_and, decide_eq_false hlength]
      rfl
    rw [hrange]
    exact decides_refused fun address h => hlength ⟨h.length_ge, h.length_le⟩

/-! ## Client and server

The server writes a header and one attribute, and the client accepts that by its grammar, unless the address
in it is one it refuses. Server and client refuse the same addresses, but not in the same form.
-/

/-- What the server checks. -/
theorem checks_of_response {request : Bytes} {observed : SocketAddr} {b : Bytes}
    (h : stunBindingResponse request observed = some b) :
    request.length = 20 ∧ slice request 0 4 = [0, 1, 0, 0] ∧ slice request 4 8 = toBE 4 STUN_MAGIC ∧
      portOf observed ≠ 0 := by
  unfold stunBindingResponse at h
  split at h
  · cases h
  · next hchecks =>
    simp only [not_or, not_not] at hchecks
    exact ⟨hchecks.1, hchecks.2.1, hchecks.2.2.1, hchecks.2.2.2.1⟩

/-- What is answered is the request of some client. -/
theorem client_of_response {request : Bytes} {observed : SocketAddr} {b : Bytes}
    (h : stunBindingResponse request observed = some b) : ∃ client : StunRequest, client.bytes = request := by
  obtain ⟨hlength, hkind, hmagic, -⟩ := checks_of_response h
  refine ⟨⟨request.drop 8, by rw [List.length_drop, hlength]⟩, ?_⟩
  have hhead : toBE 2 STUN_BINDING_REQUEST ++ toBE 2 0 = slice request 0 4 := by
    rw [hkind]
    decide
  rw [StunRequest.bytes, ← List.append_assoc, hhead, ← hmagic, ← drop_eq_slice_append request (by omega),
    ← drop_eq_slice_append request (by omega), List.drop_zero]

/-- The address that the server names. -/
def named (observed : SocketAddr) : Mapped := (toCanonical (ipOf observed), portOf observed)

theorem length_xorAddress (client : StunRequest) (address : Mapped) :
    (xorAddress client.transaction address).length = if address.1.isIpv4 then 8 else 20 := by
  have hlength := length_octets address.1
  have hmask := client.length_transaction
  simp only [xorAddress, List.length_append, List.length_cons, List.length_nil, length_toBE,
    length_xorBytes, hlength, hmask]
  split <;> simp

/-- The one attribute of the server's response. -/
def addressAttribute (client : StunRequest) (address : Mapped) : Tlv where
  kind := XOR_MAPPED_ADDRESS
  value := xorAddress client.transaction address
  padding := []
  kind_lt := by decide
  length_lt := by
    rw [length_xorAddress]
    split <;> decide
  length_padding := by
    rw [length_xorAddress]
    split <;> decide

/-- The bytes of the server's response. -/
theorem response_bytes {client : StunRequest} {observed : SocketAddr} {b : Bytes}
    (h : stunBindingResponse client.bytes observed = some b) :
    b = toBE 2 STUN_BINDING_SUCCESS ++ (toBE 2 (addressAttribute client (named observed)).bytes.length
      ++ (toBE 4 STUN_MAGIC ++ (client.transaction ++ (addressAttribute client (named observed)).bytes))) := by
  have hdrop : client.bytes.drop 4 = toBE 4 STUN_MAGIC ++ (client.transaction ++ []) := by
    rw [List.append_nil]
    rfl
  have hmagic : slice client.bytes 4 8 = toBE 4 STUN_MAGIC := slice_of_drop hdrop (by simp)
  have hmask : slice client.bytes 4 20 = toBE 4 STUN_MAGIC ++ client.transaction := by
    refine @slice_of_drop _ _ [] _ _ ?_ (by simp [client.length_transaction])
    rw [hdrop, List.append_assoc]
  have hlength := length_xorAddress client (named observed)
  have hkind : toBE 2 STUN_BINDING_SUCCESS = [1, 1] := by decide
  unfold stunBindingResponse at h
  split at h
  · cases h
  · rw [← Option.some.inj h, length_tlv, hkind]
    simp only [addressAttribute, Tlv.bytes, hlength, hmask, List.append_nil, List.append_assoc]
    unfold named xorAddress
    cases toCanonical (ipOf observed) with
    | v4 bits =>
        have hlong : (IpAddr.v4 bits).octets.length ≤ (toBE 4 STUN_MAGIC).length := by
          simp [length_octets, IpAddr.isIpv4]
        simp only [IpAddr.isIpv4, if_true, hmagic, xorBytes_append hlong]
    | v6 bits =>
        simp only [IpAddr.isIpv4, Bool.false_eq_true, if_false, hmask]

theorem response_of_server {client : StunRequest} {observed : SocketAddr} {b : Bytes}
    (h : stunBindingResponse client.bytes observed = some b) (husable : unusable (named observed) = false) :
    Response client b (named observed) := by
  have hbytes := response_bytes h
  have hlength : (addressAttribute client (named observed)).bytes.length ≤ 24 ∧
      (addressAttribute client (named observed)).bytes.length % 4 = 0 := by
    have hvalue : (addressAttribute client (named observed)).value.length =
        if (named observed).1.isIpv4 then 8 else 20 := length_xorAddress client (named observed)
    rw [length_tlv, hvalue]
    split <;> decide
  have hflat : [addressAttribute client (named observed)].flatMap Tlv.bytes =
      (addressAttribute client (named observed)).bytes := by simp
  have hsize : b.length = 20 + (addressAttribute client (named observed)).bytes.length := by
    have hcount := congrArg List.length hbytes
    simp only [List.length_append, length_toBE, client.length_transaction] at hcount
    omega
  refine ⟨by omega, by omega, husable, [addressAttribute client (named observed)], ?_, ?_,
    addressAttribute client (named observed), rfl, rfl⟩
  · rw [hflat]
    exact hbytes
  · rw [hflat]
    exact hlength.2

/-- What the server names and the client refuses: a mapped address whose IPv4 address nobody can be
reached at. -/
def unusableMapped (observed : SocketAddr) : Bool :=
  (toCanonical (ipOf observed)).isUnspecified || (toCanonical (ipOf observed)).isMulticast

/-- Client and server agree unless the address that was observed is an IPv4-mapped one that the server
checks before and the client after it became an IPv4 address; and the client parses exactly its grammar,
inside the bytes. -/
theorem stun_agrees (request : Bytes) (observed : SocketAddr) (b : Bytes) :
    (stunBindingResponse request observed = some b →
      (∃ client : StunRequest, client.bytes = request) ∧
      ∀ client : StunRequest, client.bytes = request →
        (parseResponse client b = .ok (toCanonical (ipOf observed), portOf observed) ↔
          unusableMapped observed = false)) ∧
    ∀ client, parseResponse client b ≠ .error .outOfBounds ∧
      ∀ address, parseResponse client b = .ok address ↔ Response client b address := by
  refine ⟨fun h => ⟨client_of_response h, ?_⟩, fun client => parseResponse_spec client b⟩
  rintro client rfl
  have hport := (checks_of_response h).2.2.2
  have husable : unusable (named observed) = unusableMapped observed := by
    show (decide (portOf observed = 0) || _ || _) = _
    rw [decide_eq_false hport]
    rfl
  have hparse := (parseResponse_spec client b).2 (named observed)
  rw [← husable]
  exact hparse.trans ⟨Response.usable, response_of_server h⟩

/-- A client at an IPv4 address, which the server's socket shows inside IPv6, hears the IPv4 address. -/
theorem stun_agrees_mapped :
    let client : StunRequest := ⟨List.replicate 12 0, rfl⟩
    ∃ b, stunBindingResponse client.bytes (.v6 0xffffc0000201 9000 0 0) = some b ∧
      parseResponse client b = .ok (.v4 0xc0000201, 9000) :=
  ⟨_, rfl, (((stun_agrees _ (.v6 0xffffc0000201 9000 0 0) _).1 rfl).2 _ rfl).mpr (by decide)⟩

/-- The unspecified IPv4 address inside IPv6. -/
theorem stun_mapped_unspecified : ¬ ∀ (client : StunRequest) observed b,
    stunBindingResponse client.bytes observed = some b →
      parseResponse client b = .ok (toCanonical (ipOf observed), portOf observed) := by
  intro h
  have hanswer := h ⟨List.replicate 12 0, rfl⟩ (.v6 0xffff00000000 9000 0 0) _ rfl
  have husable := (((parseResponse_spec _ _).2 _).mp hanswer).usable
  revert husable
  decide

end Peerward.P2p
