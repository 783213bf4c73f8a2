import Peerward.Lib.Agreeing
import Peerward.Management.Configuration

/-!
# Effective DNS

A Peer merges the DNS profiles whose scope selects it: two profiles may repeat a route or a record
set, never change it. A query takes the first route of the merged list that serves its name, and a
name with records of its own is answered locally.
-/

namespace Peerward.Management

open Std Peerward.Lib Peerward.Net Peerward.Types

/-- The order of `SocketAddr`. -/
instance : Ord Upstream := ⟨compareLex (compareOn Upstream.ip) (compareOn Upstream.port)⟩

instance : TransOrd Upstream := inferInstanceAs (TransCmp (compareLex _ _))

instance : LawfulEqOrd Upstream where
  eq_of_compare := by
    rintro ⟨ip, port⟩ ⟨ip', port'⟩ h
    obtain ⟨hip, hport⟩ := compareLex_eq_eq.mp h
    rw [Upstream.mk.injEq]
    exact ⟨LawfulEqOrd.eq_of_compare hip, LawfulEqOrd.eq_of_compare hport⟩

/-- Effective DNS configuration after scope resolution and equal-specificity conflict checking. -/
structure EffectiveDns where
  searchDomains : List Text := []
  routes : List DnsRoute := []
  records : ExtTreeMap Text (List DnsRecord) := ∅

/-! ## Merging profiles

The profiles that apply to a device are merged, and two that disagree on a suffix or a name are an error.
All are validated first, those that do not apply included.
-/

/-- What the loop over the profiles has collected. -/
structure MergedDns where
  searchDomains : List Text := []
  routes : ExtTreeMap Text (List Upstream) := ∅
  records : ExtTreeMap Text (List DnsRecord) := ∅

/-- `push` unless it is there. -/
def pushNew (domains : List Text) (domain : Text) : List Text :=
  if domains.contains domain then domains else domains ++ [domain]

/-- A route as the merged map has it: its servers sorted and deduplicated. -/
def DnsRoute.entry (route : DnsRoute) : Text × List Upstream :=
  (route.suffix, sortDedup route.upstreams)

/-- The body of the loop, for a profile whose scope selects the device. -/
def MergedDns.add (merged : MergedDns) (profile : DnsProfile) : Except ManagementError MergedDns := do
  let routes ← (profile.routes.map DnsRoute.entry).foldlM
    (insertAgreeing (.conflict "dns.equal_suffix")) merged.routes
  let records ← profile.records.toList.foldlM (insertAgreeing (.conflict "dns.record")) merged.records
  .ok { searchDomains := profile.searchDomains.foldl pushNew merged.searchDomains, routes, records }

/-- Longer suffixes first, equal lengths in lexical order. -/
def suffixOrder : DnsRoute → DnsRoute → Ordering :=
  compareLex (fun a b => compare b.suffix.bytes.length a.suffix.bytes.length)
    (compareOn DnsRoute.suffix)

/-- The Peer a configuration is resolved for. -/
structure Device where
  peer : PeerId
  address : IpAddr
  labels : ExtTreeMap Text Text := ∅

def DnsProfile.selects (profile : DnsProfile) (device : Device) : Bool :=
  profile.scope.matchesDevice device.peer device.address device.labels

/-- The loop: every profile is validated, also one that does not apply. -/
def MergedDns.visit (device : Device) (merged : MergedDns) (profile : DnsProfile) :
    Except ManagementError MergedDns := do
  profile.validate
  if profile.selects device then merged.add profile else .ok merged

namespace EffectiveDns

def forPeer (profiles : List DnsProfile) (device : Device) : Except ManagementError EffectiveDns := do
  let merged ← profiles.foldlM (MergedDns.visit device) {}
  rejectIf (merged.searchDomains.length > 6) (.conflict "dns.search_domains")
  validateRecords merged.records
  .ok {
    searchDomains := merged.searchDomains
    routes := sortBy suffixOrder (merged.routes.toList.map fun (suffix, upstreams) =>
      { suffix, upstreams })
    records := merged.records }

/-! ## Routes -/

/-- `to_ascii_lowercase`, byte by byte. -/
def lowercase (byte : UInt8) : UInt8 := if 65 ≤ byte ∧ byte ≤ 90 then byte + 32 else byte

/-- `trim_end_matches('.')` and `to_ascii_lowercase`: names differ in case and in trailing dots. -/
def normalized (name : Text) : Bytes := (name.bytes.rdropWhile (· = DOT)).map lowercase

/-- `strip_suffix`. -/
def stripSuffix (suffix name : Bytes) : Option Bytes :=
  if suffix.isSuffixOf name then some (name.take (name.length - suffix.length)) else none

/-- The root route serves every name, another one the names at or below its suffix. -/
def serves (name : Bytes) (route : DnsRoute) : Bool :=
  route.suffix.bytes = [DOT] || name = route.suffix.bytes
    || (stripSuffix route.suffix.bytes name).any (·.getLast? = some DOT)

/-- A selected private route is terminal, even if every server fails. -/
def route (dns : EffectiveDns) (name : Text) : Option DnsRoute :=
  dns.routes.find? (serves (normalized name))

/-! ## Records -/

/-- The query types of `A`, `CNAME` and `AAAA`. -/
def QTYPE_A : Nat := 1
def QTYPE_CNAME : Nat := 5
def QTYPE_AAAA : Nat := 28

def answersType (qtype : Nat) : DnsRecord → Bool
  | .a _ => qtype = QTYPE_A
  | .aaaa _ => qtype = QTYPE_AAAA
  | .cname _ => false

/-- The loop, with the turns it has left. -/
def answerFrom (records : ExtTreeMap Text (List DnsRecord)) (qtype : Nat) :
    Nat → Text → List (Text × DnsRecord) → Except ManagementError (List (Text × DnsRecord))
  | 0, _, _ => .error (.invalid "dns.cname_depth")
  | turns + 1, current, output =>
    match records[current]? with
    | none => .ok output
    | some values =>
      match values.head? with
      | some (.cname target) =>
        let output := output ++ [(current, .cname target)]
        if qtype = QTYPE_CNAME then .ok output else answerFrom records qtype turns target output
      | _ => .ok (output ++ (values.filter (answersType qtype)).map (current, ·))

/-- Bounded local answer chain. An existing name with no matching type yields no data, never
upstream fallback. -/
def answerRecords (dns : EffectiveDns) (name : Text) (qtype : Nat) :
    Except ManagementError (List (Text × DnsRecord)) :=
  answerFrom dns.records qtype 16 name []

end EffectiveDns

/-! ## What a merged configuration holds

The loop's result said by what it holds rather than by how it went. Nothing in it depends on the order of
the profiles except the search domains.
-/

/-- The profiles that apply. -/
def selected (device : Device) (profiles : List DnsProfile) : List DnsProfile :=
  profiles.filter (·.selects device)

@[simp] theorem selected_append (device : Device) (first second : List DnsProfile) :
    selected device (first ++ second) = selected device first ++ selected device second :=
  List.filter_append ..

theorem selected_singleton (device : Device) (profile : DnsProfile) :
    selected device [profile] = if profile.selects device then [profile] else [] :=
  List.filter_cons

def routeEntries (profiles : List DnsProfile) : List (Text × List Upstream) :=
  profiles.flatMap fun profile => profile.routes.map DnsRoute.entry

def recordEntries (profiles : List DnsProfile) : List (Text × List DnsRecord) :=
  profiles.flatMap (·.records.toList)

@[simp] theorem routeEntries_append (first second : List DnsProfile) :
    routeEntries (first ++ second) = routeEntries first ++ routeEntries second :=
  List.flatMap_append

@[simp] theorem recordEntries_append (first second : List DnsProfile) :
    recordEntries (first ++ second) = recordEntries first ++ recordEntries second :=
  List.flatMap_append

theorem pushNew_nodup {domains : List Text} (domain : Text) (h : domains.Nodup) :
    (pushNew domains domain).Nodup := by
  unfold pushNew
  split
  · exact h
  · next hnew =>
      rw [List.nodup_append]
      refine ⟨h, List.nodup_singleton _, ?_⟩
      rintro old hold _ hmem rfl
      rw [List.mem_singleton] at hmem
      exact hnew (by simpa [hmem] using hold)

theorem mem_pushNew {domains : List Text} {domain d : Text} :
    d ∈ pushNew domains domain ↔ d ∈ domains ∨ d = domain := by
  unfold pushNew
  split
  · next hold => exact ⟨.inl, fun h => h.elim id fun heq => by simpa [heq] using hold⟩
  · simp

/-- Search domains are kept in the order of their first appearance, once each. -/
theorem foldl_pushNew {domains : List Text} (more : List Text) (h : domains.Nodup) :
    (more.foldl pushNew domains).Nodup ∧
      ∀ d, d ∈ more.foldl pushNew domains ↔ d ∈ domains ∨ d ∈ more := by
  induction more generalizing domains with
  | nil => exact ⟨h, fun d => by simp⟩
  | cons domain more ih =>
      obtain ⟨hnodup, hmem⟩ := ih (pushNew_nodup domain h)
      refine ⟨hnodup, fun d => ?_⟩
      rw [List.foldl_cons, hmem, mem_pushNew, List.mem_cons, or_assoc]

/-- The loop has collected these profiles. -/
structure MergedDns.Holds (merged : MergedDns) (profiles : List DnsProfile) : Prop where
  routes : Lists merged.routes (routeEntries profiles)
  records : Lists merged.records (recordEntries profiles)
  distinct : merged.searchDomains.Nodup
  domains : ∀ d, d ∈ merged.searchDomains ↔ d ∈ profiles.flatMap (·.searchDomains)

/-- No suffix has two groups of servers, and no name two record sets. -/
structure Consistent (profiles : List DnsProfile) : Prop where
  routes : Agree (routeEntries profiles)
  records : Agree (recordEntries profiles)

theorem Consistent.left {first second : List DnsProfile} (h : Consistent (first ++ second)) :
    Consistent first where
  routes := h.routes.subset (by simp)
  records := h.records.subset (by simp)

namespace MergedDns

variable {device : Device} {merged next : MergedDns} {done rest profiles : List DnsProfile}
  {profile : DnsProfile}

theorem Holds.empty : ({} : MergedDns).Holds (selected device []) where
  routes := Lists.empty
  records := Lists.empty
  distinct := List.nodup_nil
  domains := by simp [selected]

theorem Holds.consistent (h : merged.Holds profiles) : Consistent profiles :=
  ⟨h.routes.agree, h.records.agree⟩

theorem Holds.add (h : merged.Holds done) (hok : merged.add profile = .ok next) :
    next.Holds (done ++ [profile]) := by
  obtain ⟨routes, hroutes, hok⟩ := bind_eq_ok.mp hok
  obtain ⟨records, hrecords, hok⟩ := bind_eq_ok.mp hok
  rw [← Except.ok.inj hok]
  obtain ⟨hnodup, hmem⟩ := foldl_pushNew profile.searchDomains h.distinct
  refine ⟨?_, ?_, hnodup, fun d => ?_⟩
  · simpa [routeEntries] using h.routes.foldlM_eq_ok hroutes
  · simpa [recordEntries] using h.records.foldlM_eq_ok hrecords
  · rw [hmem, h.domains, List.flatMap_append, List.mem_append]
    simp

theorem Holds.exists_add (h : merged.Holds done) (hc : Consistent (done ++ [profile])) :
    ∃ next, merged.add profile = .ok next := by
  have hroutes : Agree (routeEntries done ++ profile.routes.map DnsRoute.entry) := by
    simpa [routeEntries] using hc.routes
  have hrecords : Agree (recordEntries done ++ profile.records.toList) := by
    simpa [recordEntries] using hc.records
  obtain ⟨routes, hroutes⟩ :=
    h.routes.exists_foldlM (ManagementError.conflict "dns.equal_suffix") hroutes
  obtain ⟨records, hrecords⟩ :=
    h.records.exists_foldlM (ManagementError.conflict "dns.record") hrecords
  exact ⟨_, bind_eq_ok.mpr ⟨routes, hroutes, bind_eq_ok.mpr ⟨records, hrecords, rfl⟩⟩⟩

/-- A loop that succeeds has validated every profile and collected those that apply. -/
theorem Holds.visit_all (h : merged.Holds (selected device done))
    (hok : rest.foldlM (visit device) merged = .ok next) :
    next.Holds (selected device (done ++ rest)) ∧ ∀ profile ∈ rest, profile.validate = .ok () := by
  induction rest generalizing merged done with
  | nil =>
      rw [← Except.ok.inj hok, List.append_nil]
      exact ⟨h, by simp⟩
  | cons profile rest ih =>
      obtain ⟨middle, hvisit, hok⟩ := bind_eq_ok.mp hok
      obtain ⟨⟨⟩, hvalid, hvisit⟩ := bind_eq_ok.mp hvisit
      have hmiddle : middle.Holds (selected device (done ++ [profile])) := by
        rw [selected_append, selected_singleton]
        split at hvisit
        · next hselects => simpa [hselects] using h.add hvisit
        · next hskips =>
            rw [← Except.ok.inj hvisit]
            simpa [hskips] using h
      obtain ⟨hall, hrest⟩ := ih hmiddle hok
      rw [List.append_assoc, List.singleton_append] at hall
      exact ⟨hall, List.forall_mem_cons.mpr ⟨hvalid, hrest⟩⟩

/-- Valid profiles that agree are all collected. -/
theorem Holds.exists_visit_all (h : merged.Holds (selected device done))
    (hvalid : ∀ profile ∈ rest, profile.validate = .ok ())
    (hc : Consistent (selected device (done ++ rest))) :
    ∃ next, rest.foldlM (visit device) merged = .ok next := by
  induction rest generalizing merged done with
  | nil => exact ⟨merged, rfl⟩
  | cons profile rest ih =>
      have hstep : ∃ middle, visit device merged profile = .ok middle ∧
          middle.Holds (selected device (done ++ [profile])) := by
        rw [← List.singleton_append, ← List.append_assoc, selected_append] at hc
        replace hc := hc.left
        rw [visit, hvalid profile List.mem_cons_self, ok_bind]
        rw [selected_append, selected_singleton] at hc ⊢
        split
        · next hselects =>
            rw [if_pos hselects] at hc
            obtain ⟨middle, hmiddle⟩ := h.exists_add hc
            exact ⟨middle, hmiddle, h.add hmiddle⟩
        · next hskips => exact ⟨merged, rfl, by simpa using h⟩
      obtain ⟨middle, hvisit, hmiddle⟩ := hstep
      obtain ⟨next, hnext⟩ := ih hmiddle (fun p hp => hvalid p (List.mem_cons_of_mem _ hp))
        (by simpa using hc)
      exact ⟨next, bind_eq_ok.mpr ⟨middle, hvisit, hnext⟩⟩

end MergedDns

namespace EffectiveDns

variable {profiles profiles' : List DnsProfile} {device : Device} {dns : EffectiveDns}

/-- What a successful `for_peer` has done. -/
theorem forPeer_eq_ok (h : forPeer profiles device = .ok dns) :
    ∃ merged : MergedDns, profiles.foldlM (MergedDns.visit device) {} = .ok merged ∧
      merged.Holds (selected device profiles) ∧ (∀ profile ∈ profiles, profile.validate = .ok ()) ∧
      merged.searchDomains.length ≤ 6 ∧ validateRecords merged.records = .ok () ∧
      dns.records = merged.records ∧ dns.routes = sortBy suffixOrder
        (merged.routes.toList.map fun (suffix, upstreams) => { suffix, upstreams }) := by
  obtain ⟨merged, hmerged, h⟩ := bind_eq_ok.mp h
  obtain ⟨⟨⟩, hdomains, h⟩ := bind_eq_ok.mp h
  obtain ⟨⟨⟩, hrecords, h⟩ := bind_eq_ok.mp h
  obtain ⟨hholds, hvalid⟩ := MergedDns.Holds.empty.visit_all hmerged
  rw [← Except.ok.inj h]
  exact ⟨merged, hmerged, hholds, hvalid, by simpa using rejectIf_eq_ok.mp hdomains, hrecords, rfl, rfl⟩

/-- The order of the profiles decides neither whether they merge nor what routes and records they
merge to. -/
theorem forPeer_perm (h : forPeer profiles device = .ok dns) (hperm : profiles.Perm profiles') :
    ∃ dns', forPeer profiles' device = .ok dns' ∧ dns'.routes = dns.routes ∧
      dns'.records = dns.records := by
  obtain ⟨merged, -, hholds, hvalid, hdomains, hrecords, hrecordsEq, hroutesEq⟩ := forPeer_eq_ok h
  have hsel : (selected device profiles).Perm (selected device profiles') := hperm.filter _
  have hroutes : (routeEntries (selected device profiles)).Perm
      (routeEntries (selected device profiles')) := hsel.flatMap_right _
  have hentries : (recordEntries (selected device profiles)).Perm
      (recordEntries (selected device profiles')) := hsel.flatMap_right _
  have hc : Consistent (selected device profiles') :=
    ⟨hholds.consistent.routes.subset hroutes.symm.subset,
      hholds.consistent.records.subset hentries.symm.subset⟩
  obtain ⟨merged', hmerged'⟩ := MergedDns.Holds.empty.exists_visit_all
    (fun profile hp => hvalid profile (hperm.mem_iff.mpr hp)) hc
  obtain ⟨hholds', -⟩ := MergedDns.Holds.empty.visit_all hmerged'
  have hsameRoutes : merged'.routes = merged.routes :=
    hholds'.routes.unique hholds.routes fun entry => hroutes.symm.mem_iff
  have hsameRecords : merged'.records = merged.records :=
    hholds'.records.unique hholds.records fun entry => hentries.symm.mem_iff
  have hsameDomains : merged'.searchDomains.length = merged.searchDomains.length := by
    refine ((List.perm_ext_iff_of_nodup hholds'.distinct hholds.distinct).mpr fun d => ?_).length_eq
    rw [hholds'.domains, hholds.domains]
    exact (hsel.flatMap_right _).symm.mem_iff
  refine ⟨_, bind_eq_ok.mpr ⟨merged', hmerged', bind_eq_ok.mpr ⟨(), ?_, bind_eq_ok.mpr
    ⟨(), ?_, rfl⟩⟩⟩, ?_, ?_⟩
  · exact rejectIf_eq_ok.mpr (by simpa [hsameDomains] using hdomains)
  · rw [hsameRecords, hrecords]
  · rw [hroutesEq, hsameRoutes]
  · rw [hrecordsEq, hsameRecords]

end EffectiveDns

end Peerward.Management
