import Peerward.Management.Dns

/-!
# Local DNS answers

Validation follows every chain of aliases to its end and refuses a cycle; answering follows a chain
for sixteen turns. Both walk the same links, so a query of a validated configuration is answered by
the whole chain from its name, unless the chain is longer than an answer may be.
-/

namespace Peerward.Management.EffectiveDns

open Std Peerward.Lib Peerward.Net Peerward.Types

/-! ## Chains of aliases

A name owns at most one alias, so the aliases from a name on form one chain. A query is answered with the
links of it and what stands at its end.
-/

/-- The alias a name owns. -/
def aliasOf (records : ExtTreeMap Text (List DnsRecord)) (name : Text) : Option Text :=
  match records[name]?.bind List.head? with
  | some (.cname target) => some target
  | _ => none

/-- `links` are the aliases from `name` on, and `last` is the first name after them that owns no
alias. -/
inductive Chain (records : ExtTreeMap Text (List DnsRecord)) :
    Text → List (Text × DnsRecord) → Text → Prop where
  | done {name : Text} (h : aliasOf records name = none) : Chain records name [] name
  | link {name target last : Text} {links : List (Text × DnsRecord)}
      (h : aliasOf records name = some target) (rest : Chain records target links last) :
      Chain records name ((name, .cname target) :: links) last

/-- The records of a name that answer a query. -/
def addresses (records : ExtTreeMap Text (List DnsRecord)) (qtype : Nat) (name : Text) :
    List (Text × DnsRecord) :=
  ((records[name]?.getD []).filter (answersType qtype)).map (name, ·)

variable {records : ExtTreeMap Text (List DnsRecord)} {name last current : Text} {qtype turns : Nat}
  {links output : List (Text × DnsRecord)}

/-! ## Validated records

Validation walks every chain and refuses one that returns to a name. It has as many turns as there are
names, which is enough, but the answering loop has fewer.
-/

/-- A walk that ends has followed the whole chain: it cannot run out of turns, because it visits a
new name of the map in each. -/
theorem exists_chain_of_followAliases {visited : List Text} (hnodup : visited.Nodup)
    (howned : ∀ v ∈ visited, v ∈ records) (hturns : records.size < visited.length + turns)
    (h : followAliases records turns visited current = .ok ()) :
    ∃ links last, Chain records current links last := by
  fun_induction followAliases records turns visited current with
  | case1 visited current =>
      have hle : visited.length ≤ records.keys.length := by
        refine (List.subperm_of_subset hnodup fun v hv => ?_).length_le
        exact ExtTreeMap.mem_keys.mpr (howned v hv)
      rw [ExtTreeMap.length_keys] at hle
      omega
  | case2 turns visited current hnone =>
      exact ⟨[], current, .done (by simp [aliasOf, hnone])⟩
  | case3 turns visited current values hsome hvisited => cases h
  | case4 turns visited current values hsome hnew next hhead ih =>
      have hnew' : current ∉ visited := by simpa using hnew
      have howned' : ∀ v ∈ current :: visited, v ∈ records :=
        List.forall_mem_cons.mpr ⟨ExtTreeMap.mem_iff_isSome_getElem?.mpr (by simp [hsome]), howned⟩
      obtain ⟨links, last, hchain⟩ :=
        ih (List.nodup_cons.mpr ⟨hnew', hnodup⟩) howned' (by simp only [List.length_cons]; omega) h
      exact ⟨_, last, .link (by simp [aliasOf, hsome, hhead]) hchain⟩
  | case5 turns visited current values hsome hnew hother =>
      refine ⟨[], current, .done ?_⟩
      rw [aliasOf, hsome, Option.bind_some]
      cases hhead : values.head? with
      | none => rfl
      | some record =>
          cases record with
          | cname target => exact absurd hhead (hother target)
          | a address => rfl
          | aaaa address => rfl

/-- In a validated map every chain of aliases ends. -/
theorem exists_chain_of_validateRecords (h : validateRecords records = .ok ()) (name : Text) :
    ∃ links last, Chain records name links last := by
  cases hname : records[name]? with
  | none => exact ⟨[], name, .done (by simp [aliasOf, hname])⟩
  | some values =>
      have hmem : (name, values) ∈ records.toList :=
        ExtTreeMap.mem_toList_iff_getElem?_eq_some.mpr hname
      have hentry := forM_eq_ok.mp h _ hmem
      obtain ⟨⟨⟩, -, hentry⟩ := bind_eq_ok.mp hentry
      obtain ⟨⟨⟩, -, hentry⟩ := bind_eq_ok.mp hentry
      exact exists_chain_of_followAliases List.nodup_nil nofun (by simp) hentry

/-! ## Answers -/

theorem answerFrom_of_alias {target : Text} (h : aliasOf records name = some target) :
    answerFrom records qtype (turns + 1) name output =
      if qtype = QTYPE_CNAME then .ok (output ++ [(name, .cname target)])
      else answerFrom records qtype turns target (output ++ [(name, .cname target)]) := by
  unfold aliasOf at h
  rw [answerFrom]
  cases hname : records[name]? with
  | none => simp [hname] at h
  | some values =>
      cases hhead : values.head? with
      | none => simp [hname, hhead] at h
      | some record =>
          cases record with
          | a address => simp [hname, hhead] at h
          | aaaa address => simp [hname, hhead] at h
          | cname next =>
              have hnext : next = target := by simpa [hname, hhead] using h
              simp [hhead, hnext]

theorem answerFrom_of_no_alias (h : aliasOf records name = none) :
    answerFrom records qtype (turns + 1) name output =
      .ok (output ++ addresses records qtype name) := by
  unfold aliasOf at h
  rw [answerFrom, addresses]
  cases hname : records[name]? with
  | none => simp
  | some values =>
      cases hhead : values.head? with
      | none => simp [hhead]
      | some record =>
          cases record with
          | a address => simp [hhead]
          | aaaa address => simp [hhead]
          | cname next => simp [hname, hhead] at h

/-- The loop answers with the rest of the chain, if it has a turn for each link and one more. -/
theorem answerFrom_of_chain (hchain : Chain records name links last) (hq : qtype ≠ QTYPE_CNAME) :
    answerFrom records qtype turns name output =
      if links.length < turns then .ok (output ++ links ++ addresses records qtype last)
      else .error (.invalid "dns.cname_depth") := by
  induction hchain generalizing turns output with
  | done h =>
      cases turns with
      | zero => rfl
      | succ turns => simp [answerFrom_of_no_alias h]
  | link h rest ih =>
      cases turns with
      | zero => rfl
      | succ turns =>
          rw [answerFrom_of_alias h, if_neg hq, ih]
          simp

/-- A query for the alias itself takes the first link, if there is one. -/
theorem answerFrom_cname (hchain : Chain records name links last) :
    answerFrom records QTYPE_CNAME (turns + 1) name [] = .ok (links.take 1) := by
  cases hchain with
  | done h =>
      have hnone : addresses records QTYPE_CNAME name = [] := by
        rw [addresses, List.map_eq_nil_iff, List.filter_eq_nil_iff]
        intro record hrecord
        cases record <;> simp [answersType, QTYPE_A, QTYPE_AAAA, QTYPE_CNAME]
      rw [answerFrom_of_no_alias h, hnone]
      rfl
  | link h rest =>
      rw [answerFrom_of_alias h, if_pos rfl]
      rfl

/-- A merged configuration answers every query with the chain of aliases from the name (for a query
of the alias, its first link alone) and the matching addresses at its end, or refuses it because
sixteen or more aliases follow one another. -/
theorem answerRecords_of_forPeer {profiles : List DnsProfile} {device : Device} {dns : EffectiveDns}
    (h : forPeer profiles device = .ok dns) (name : Text) (qtype : Nat) :
    ∃ links last, Chain dns.records name links last ∧
      dns.answerRecords name qtype =
        if qtype = QTYPE_CNAME then .ok (links.take 1)
        else if links.length < 16 then .ok (links ++ addresses dns.records qtype last)
        else .error (.invalid "dns.cname_depth") := by
  obtain ⟨merged, -, -, -, -, hvalid, hrecords, -⟩ := forPeer_eq_ok h
  rw [← hrecords] at hvalid
  obtain ⟨links, last, hchain⟩ := exists_chain_of_validateRecords hvalid name
  refine ⟨links, last, hchain, ?_⟩
  unfold answerRecords
  split
  · next hq =>
      rw [hq]
      exact answerFrom_cname hchain
  · next hq =>
      rw [answerFrom_of_chain hchain hq]
      rfl

/-! ## A chain that is too long

Sixteen aliases in a row: the configuration is valid, and looking up its first name gives up on the way.
-/

/-- The letters from `a` on. -/
def letter (index : Fin 26) : Text := ⟨[97 + UInt8.ofNat index], by revert index; decide +kernel⟩

/-- Every letter up to `p` is an alias of the next one. -/
def alphabetProfile : DnsProfile where
  id := 0x4000800000000000000b#128
  scope := {}
  searchDomains := []
  routes := []
  records := ExtTreeMap.ofList ((List.range 16).map fun index =>
    (letter (Fin.ofNat 26 index), [DnsRecord.cname (letter (Fin.ofNat 26 (index + 1)))]))

def phone : Device where
  peer := ⟨0x4000800000000000000a#128, Types.random_ten⟩
  address := .v4 0x0a000002#32

theorem alphabet_answers :
    ∃ dns, forPeer [alphabetProfile] phone = .ok dns ∧
      ∃ links last, Chain dns.records (letter 1) links last ∧
        dns.answerRecords (letter 1) QTYPE_A =
          if QTYPE_A = QTYPE_CNAME then .ok (links.take 1)
          else if links.length < 16 then .ok (links ++ addresses dns.records QTYPE_A last)
          else .error (.invalid "dns.cname_depth") := by
  have hmerges : ((forPeer [alphabetProfile] phone).map fun _ => ()) = .ok () := by decide +kernel
  obtain ⟨dns, hdns, -⟩ := map_eq_ok.mp hmerges
  exact ⟨dns, hdns, answerRecords_of_forPeer hdns (letter 1) QTYPE_A⟩

/-- The configuration is accepted, and looking `a` up fails. -/
theorem alphabet_lookup_fails :
    ∃ dns, forPeer [alphabetProfile] phone = .ok dns ∧
      dns.answerRecords (letter 0) QTYPE_A = .error (.invalid "dns.cname_depth") := by
  have hfails : ((forPeer [alphabetProfile] phone).map fun dns =>
      decide (dns.answerRecords (letter 0) QTYPE_A = .error (.invalid "dns.cname_depth"))) =
        .ok true := by decide +kernel
  obtain ⟨dns, hdns, hanswer⟩ := map_eq_ok.mp hfails
  exact ⟨dns, hdns, of_decide_eq_true hanswer⟩

end Peerward.Management.EffectiveDns
