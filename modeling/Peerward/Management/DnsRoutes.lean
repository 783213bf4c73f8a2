import Peerward.Management.Dns

/-!
# Scoped DNS routing

Which route serves a query. The merged routes are sorted by the length of their suffix, so the first
one that serves a name has the longest suffix; the root route takes part in the same order with a
suffix of one byte. `'.'` sorts before every letter and digit, and so the root route comes before a
suffix of a single character.
-/

namespace Peerward.Management.EffectiveDns

open Std Peerward.Lib Peerward.Net Peerward.Types

/-! ## What routing is for

Said without the code: among the suffixes that cover a name the longest one decides, and the root route is
left with what no other covers.
-/

/-- The name equals the suffix, or has it after a dot. -/
def Covers (suffix : Text) (name : Bytes) : Prop :=
  name = suffix.bytes ∨ DOT :: suffix.bytes <:+ name

/-- The suffix of the root route. -/
def IsRoot (suffix : Text) : Prop := suffix.bytes = [DOT]

instance (suffix : Text) : Decidable (IsRoot suffix) := inferInstanceAs (Decidable (_ = _))

/-- A profile that applies to the device has a route with this suffix. -/
def InScope (profiles : List DnsProfile) (device : Device) (suffix : Text) : Prop :=
  ∃ profile ∈ profiles, profile.selects device ∧ ∃ route ∈ profile.routes, route.suffix = suffix

/-- The route chosen for a name is the one in scope with the longest suffix that covers it, and the
root route only where no other suffix does. -/
def MostSpecific (profiles : List DnsProfile) (device : Device) (name : Bytes) :
    Option DnsRoute → Prop
  | some route =>
    InScope profiles device route.suffix ∧
      ((¬ IsRoot route.suffix ∧ Covers route.suffix name ∧
          ∀ suffix, InScope profiles device suffix → Covers suffix name →
            suffix.bytes.length ≤ route.suffix.bytes.length) ∨
        (IsRoot route.suffix ∧
          ∀ suffix, InScope profiles device suffix → ¬ IsRoot suffix → ¬ Covers suffix name))
  | none => ∀ suffix, InScope profiles device suffix → ¬ IsRoot suffix ∧ ¬ Covers suffix name

/-- The root route is in scope, and the longest suffix that covers the name is a single
character. -/
structure Shadowed (profiles : List DnsProfile) (device : Device) (name : Bytes) : Prop where
  root : ∃ suffix, InScope profiles device suffix ∧ IsRoot suffix
  short : ∃ suffix, InScope profiles device suffix ∧ ¬ IsRoot suffix ∧ Covers suffix name
  longest : ∀ suffix, InScope profiles device suffix → Covers suffix name →
    suffix.bytes.length ≤ 1

/-! ## Suffixes that validation accepts -/

/-- A valid name of one byte is a letter or a digit, and sorts after the root suffix. -/
theorem compare_root_of_length_one {suffix root : Text} (hvalid : validDnsName suffix = true)
    (hlength : suffix.bytes.length = 1) (hroot : IsRoot root) : compare suffix root = .gt := by
  obtain ⟨byte, hbyte⟩ := List.length_eq_one_iff.mp hlength
  have hlabels : (List.splitOn DOT [byte]).all validLabel = true := by
    rw [validDnsName, hbyte] at hvalid
    simp only [Bool.and_eq_true] at hvalid
    exact hvalid.2
  have hdot : byte ≠ DOT := by
    rintro rfl
    revert hlabels
    decide
  have hlabel : isLabelByte byte = true ∧ byte ≠ HYPHEN := by
    rw [List.splitOn_eq_splitOnP] at hlabels
    simp [List.splitOnP_cons_eq_if_modifyHead, hdot, validLabel] at hlabels
    exact hlabels
  have hlt : DOT < byte := by
    simp only [isLabelByte, Bool.or_eq_true, Bool.and_eq_true, decide_eq_true_eq] at hlabel
    simp only [DOT, HYPHEN, UInt8.lt_iff_toNat_lt, UInt8.le_iff_toNat_le] at *
    rcases hlabel with ⟨(⟨hlow, -⟩ | ⟨hlow, -⟩) | heq, hne⟩
    · exact Nat.lt_of_lt_of_le (by decide) hlow
    · exact Nat.lt_of_lt_of_le (by decide) hlow
    · exact absurd heq hne
  show compare suffix.bytes root.bytes = .gt
  rw [hbyte, hroot]
  have hcompare : compare byte DOT = .gt := by
    rw [OrientedOrd.eq_swap, Ordering.swap_eq_gt]
    exact if_pos hlt
  simp [hcompare]

theorem suffix_of_validate {profile : DnsProfile} (h : profile.validate = .ok ()) {route : DnsRoute}
    (hmem : route ∈ profile.routes) : IsRoot route.suffix ∨ validDnsName route.suffix = true := by
  obtain ⟨⟨⟩, -, h⟩ := bind_eq_ok.mp h
  obtain ⟨⟨⟩, -, h⟩ := bind_eq_ok.mp h
  obtain ⟨⟨⟩, -, h⟩ := bind_eq_ok.mp h
  obtain ⟨⟨⟩, hroutes, -⟩ := bind_eq_ok.mp h
  have hroutes := rejectIf_eq_ok.mp hroutes
  rw [Bool.or_eq_false_iff, List.any_eq_false] at hroutes
  have hroute := hroutes.2 route hmem
  simp only [Bool.or_eq_true, not_or, Bool.not_eq_true', Bool.not_eq_false] at hroute
  simpa [IsRoot] using hroute.1.1.1

/-! ## The merged routes

Routes are sorted by the length of their suffix, and the first one that serves a name is taken. The root
suffix is a dot, one character long, which is where a suffix of one character meets it.
-/

variable {profiles : List DnsProfile} {device : Device} {dns : EffectiveDns} {name : Text}
  {route first second : DnsRoute}

theorem stripSuffix_endsWith_iff {suffix name : Bytes} :
    (stripSuffix suffix name).any (·.getLast? = some DOT) = true ↔ DOT :: suffix <:+ name := by
  unfold stripSuffix
  split
  · next hsuffix =>
      obtain ⟨front, rfl⟩ := List.isSuffixOf_iff_suffix.mp hsuffix
      simp only [Option.any_some, decide_eq_true_eq, List.length_append, Nat.add_sub_cancel,
        List.take_left']
      rw [List.getLast?_eq_some_iff]
      constructor
      · rintro ⟨before, hfront⟩
        exact ⟨before, by rw [hfront, List.append_assoc, List.singleton_append]⟩
      · rintro ⟨before, hbefore⟩
        rw [← List.singleton_append, ← List.append_assoc] at hbefore
        exact ⟨before, (List.append_cancel_right hbefore).symm⟩
  · next hsuffix =>
      rw [Option.any_none]
      refine ⟨nofun, fun hdot => absurd ?_ hsuffix⟩
      exact List.isSuffixOf_iff_suffix.mpr ((List.suffix_cons DOT suffix).trans hdot)

theorem serves_iff {name : Bytes} :
    serves name route = true ↔ IsRoot route.suffix ∨ Covers route.suffix name := by
  rw [serves, Bool.or_eq_true, Bool.or_eq_true, stripSuffix_endsWith_iff, decide_eq_true_eq,
    decide_eq_true_eq, or_assoc]
  rfl

instance : TransCmp suffixOrder :=
  have : TransCmp fun a b : DnsRoute => compare b.suffix.bytes.length a.suffix.bytes.length :=
    @TransCmp.opposite _ (compareOn fun route : DnsRoute => route.suffix.bytes.length) _
  inferInstanceAs (TransCmp (compareLex _ _))

/-- A route that comes first has the longer suffix, or the lexically smaller one of that length. -/
theorem suffixOrder_isLE (h : (suffixOrder first second).isLE = true) :
    second.suffix.bytes.length < first.suffix.bytes.length ∨
      (second.suffix.bytes.length = first.suffix.bytes.length ∧
        (compare first.suffix second.suffix).isLE = true) := by
  rw [suffixOrder, compareLex, Ordering.isLE_then_iff_or] at h
  rcases h with hlt | ⟨heq, hle⟩
  · exact .inl (Nat.compare_eq_lt.mp hlt)
  · exact .inr ⟨Nat.compare_eq_eq.mp heq, hle⟩

theorem mem_routeEntries {suffix : Text} :
    (∃ servers, (suffix, servers) ∈ routeEntries (selected device profiles)) ↔
      InScope profiles device suffix := by
  simp only [routeEntries, selected, List.mem_flatMap, List.mem_filter, List.mem_map, InScope]
  constructor
  · rintro ⟨servers, profile, ⟨hmem, hselects⟩, route, hroute, hentry⟩
    exact ⟨profile, hmem, hselects, route, hroute, congrArg Prod.fst hentry⟩
  · rintro ⟨profile, hmem, hselects, route, hroute, rfl⟩
    exact ⟨_, profile, ⟨hmem, hselects⟩, route, hroute, rfl⟩

theorem mem_routes (h : forPeer profiles device = .ok dns) :
    route ∈ dns.routes ↔ (route.suffix, route.upstreams) ∈ routeEntries (selected device profiles) := by
  obtain ⟨merged, -, hholds, -, -, -, -, hroutes⟩ := forPeer_eq_ok h
  rw [hroutes, (sortBy_perm _ _).mem_iff, ← hholds.routes, List.mem_map]
  constructor
  · rintro ⟨⟨suffix, servers⟩, hmem, rfl⟩
    exact ExtTreeMap.mem_toList_iff_getElem?_eq_some.mp hmem
  · intro hget
    exact ⟨(route.suffix, route.upstreams), ExtTreeMap.mem_toList_iff_getElem?_eq_some.mpr hget, rfl⟩

theorem routes_pairwise (h : forPeer profiles device = .ok dns) :
    dns.routes.Pairwise fun a b => (suffixOrder a b).isLE = true := by
  obtain ⟨merged, -, -, -, -, -, -, hroutes⟩ := forPeer_eq_ok h
  rw [hroutes]
  exact sortBy_pairwise _ _

theorem inScope_of_mem (h : forPeer profiles device = .ok dns) (hmem : route ∈ dns.routes) :
    InScope profiles device route.suffix :=
  mem_routeEntries.mp ⟨_, (mem_routes h).mp hmem⟩

theorem exists_mem_of_inScope (h : forPeer profiles device = .ok dns) {suffix : Text}
    (hscope : InScope profiles device suffix) : ∃ route ∈ dns.routes, route.suffix = suffix := by
  obtain ⟨servers, hservers⟩ := mem_routeEntries.mpr hscope
  exact ⟨⟨suffix, servers⟩, (mem_routes h).mpr hservers, rfl⟩

theorem valid_of_inScope (h : forPeer profiles device = .ok dns) {suffix : Text}
    (hscope : InScope profiles device suffix) : IsRoot suffix ∨ validDnsName suffix = true := by
  obtain ⟨-, -, -, hvalid, -⟩ := forPeer_eq_ok h
  obtain ⟨profile, hprofile, -, route, hroute, rfl⟩ := hscope
  exact suffix_of_validate (hvalid profile hprofile) hroute

theorem length_pos_of_inScope (h : forPeer profiles device = .ok dns) {suffix : Text}
    (hscope : InScope profiles device suffix) : 0 < suffix.bytes.length := by
  rcases valid_of_inScope h hscope with hroot | hvalid
  · rw [hroot]
    exact Nat.one_pos
  · rw [validDnsName, Bool.and_eq_true, Bool.and_eq_true] at hvalid
    simpa [List.length_pos_iff] using hvalid.1.1

/-- The chosen route comes before every other one that serves the name. -/
theorem suffix_of_route (h : forPeer profiles device = .ok dns) (hroute : dns.route name = some route)
    {suffix : Text} (hscope : InScope profiles device suffix)
    (hserves : IsRoot suffix ∨ Covers suffix (normalized name)) :
    suffix.bytes.length < route.suffix.bytes.length ∨
      (suffix.bytes.length = route.suffix.bytes.length ∧
        (compare route.suffix suffix).isLE = true) := by
  obtain ⟨other, hother, rfl⟩ := exists_mem_of_inScope h hscope
  rcases rel_of_find? (routes_pairwise h) hroute hother (serves_iff.mpr hserves) with rfl | hle
  · exact .inr ⟨rfl, by simp⟩
  · exact suffixOrder_isLE hle

/-! ## Routing

Only a name whose longest suffix is a single character goes wrong. For all others the sorted order is the
order of specificity.
-/

/-- A name whose longest suffix is a single character goes to the root route. -/
theorem route_isRoot_of_shadowed (h : forPeer profiles device = .ok dns)
    (hshadowed : Shadowed profiles device (normalized name)) :
    ∃ route, dns.route name = some route ∧ IsRoot route.suffix := by
  obtain ⟨root, hscope, hroot⟩ := hshadowed.root
  obtain ⟨entry, hentry, rfl⟩ := exists_mem_of_inScope h hscope
  have hfound : (dns.route name).isSome := by
    rw [EffectiveDns.route, List.find?_isSome]
    exact ⟨entry, hentry, serves_iff.mpr (.inl hroot)⟩
  obtain ⟨route, hroute⟩ := Option.isSome_iff_exists.mp hfound
  refine ⟨route, hroute, ?_⟩
  have hmem := inScope_of_mem h (List.mem_of_find?_eq_some hroute)
  by_contra hne
  -- another route would have a suffix of one byte, which sorts after the root
  have hcovers := (serves_iff.mp (List.find?_some hroute)).resolve_left hne
  have hlength := hshadowed.longest _ hmem hcovers
  have hpos := length_pos_of_inScope h hmem
  have hone : entry.suffix.bytes.length = 1 := by rw [hroot]; rfl
  rcases suffix_of_route h hroute hscope (.inl hroot) with hlt | ⟨-, hle⟩
  · omega
  · have hvalid := (valid_of_inScope h hmem).resolve_left hne
    rw [compare_root_of_length_one hvalid (by omega) hroot] at hle
    cases hle

theorem mostSpecific_of_not_shadowed (h : forPeer profiles device = .ok dns)
    (hclear : ¬ Shadowed profiles device (normalized name)) :
    MostSpecific profiles device (normalized name) (dns.route name) := by
  cases hroute : dns.route name with
  | none =>
      intro suffix hscope
      obtain ⟨route, hmem, rfl⟩ := exists_mem_of_inScope h hscope
      have hnot := List.find?_eq_none.mp hroute route hmem
      rwa [serves_iff, not_or] at hnot
  | some route =>
      have hscope := inScope_of_mem h (List.mem_of_find?_eq_some hroute)
      have hlongest : ∀ suffix, InScope profiles device suffix → Covers suffix (normalized name) →
          suffix.bytes.length ≤ route.suffix.bytes.length := by
        intro suffix hsuffix hcovers
        rcases suffix_of_route h hroute hsuffix (.inr hcovers) with hlt | ⟨heq, -⟩ <;> omega
      refine ⟨hscope, ?_⟩
      by_cases hroot : IsRoot route.suffix
      · refine .inr ⟨hroot, fun suffix hsuffix hne hcovers => hclear ⟨⟨_, hscope, hroot⟩,
          ⟨suffix, hsuffix, hne, hcovers⟩, fun other hother hserves => ?_⟩⟩
        have := hlongest other hother hserves
        rwa [hroot] at this
      · exact .inl ⟨hroot, (serves_iff.mp (List.find?_some hroute)).resolve_left hroot, hlongest⟩

/-- Routing is by the most specific suffix, and does not depend on the order of the profiles, except
for the names that the root route takes from a suffix of a single character. -/
theorem route_mostSpecific_iff {profiles : List DnsProfile} {device : Device} {dns : EffectiveDns}
    (h : forPeer profiles device = .ok dns) (name : Text) :
    (MostSpecific profiles device (normalized name) (dns.route name) ∧
      ∀ profiles', profiles.Perm profiles' → ∃ dns', forPeer profiles' device = .ok dns' ∧
        dns'.routes = dns.routes ∧ dns'.records = dns.records) ↔
      ¬ Shadowed profiles device (normalized name) := by
  constructor
  · rintro ⟨hspecific, -⟩ hshadowed
    obtain ⟨route, hroute, hroot⟩ := route_isRoot_of_shadowed h hshadowed
    rw [hroute] at hspecific
    obtain ⟨suffix, hscope, hne, hcovers⟩ := hshadowed.short
    rcases hspecific.2 with ⟨hother, -⟩ | ⟨-, hnone⟩
    · exact hother hroot
    · exact hnone suffix hscope hne hcovers
  · intro hclear
    exact ⟨mostSpecific_of_not_shadowed h hclear, fun profiles' hperm => forPeer_perm h hperm⟩

/-! ## A suffix of one character -/

def rootSuffix : Text := ⟨[DOT], by decide +kernel⟩

/-- `"x"`. -/
def oneLetter : Text := ⟨[120], by decide +kernel⟩

def resolver : Upstream := ⟨.v4 0x0a000035#32, 53⟩

def laptop : Device where
  peer := ⟨0x4000800000000000000a#128, Types.random_ten⟩
  address := .v4 0x0a000002#32

/-- A default route and a route for the names below `x`. -/
def shortSuffixProfile : DnsProfile where
  id := 0x4000800000000000000b#128
  scope := {}
  searchDomains := []
  routes := [⟨rootSuffix, [resolver]⟩, ⟨oneLetter, [resolver]⟩]
  records := ∅

theorem shortSuffixProfile_routes_iff :
    ∃ dns, forPeer [shortSuffixProfile] laptop = .ok dns ∧
      ((MostSpecific [shortSuffixProfile] laptop (normalized rootSuffix) (dns.route rootSuffix) ∧
        ∀ profiles', [shortSuffixProfile].Perm profiles' → ∃ dns', forPeer profiles' laptop = .ok dns' ∧
          dns'.routes = dns.routes ∧ dns'.records = dns.records) ↔
        ¬ Shadowed [shortSuffixProfile] laptop (normalized rootSuffix)) := by
  have hmerges : ((forPeer [shortSuffixProfile] laptop).map fun _ => ()) = .ok () := by
    decide +kernel
  obtain ⟨dns, hdns, -⟩ := map_eq_ok.mp hmerges
  exact ⟨dns, hdns, route_mostSpecific_iff hdns rootSuffix⟩

/-- The name `x` goes to the default route although `x` is in scope. -/
theorem oneLetter_routed_to_root :
    ∃ dns, forPeer [shortSuffixProfile] laptop = .ok dns ∧
      ¬ MostSpecific [shortSuffixProfile] laptop (normalized oneLetter) (dns.route oneLetter) := by
  have hroutes : ((forPeer [shortSuffixProfile] laptop).map fun dns =>
      (dns.route oneLetter).map (·.suffix)) = .ok (some rootSuffix) := by decide +kernel
  obtain ⟨dns, hdns, hroute⟩ := map_eq_ok.mp hroutes
  obtain ⟨route, hroute, hsuffix⟩ := Option.map_eq_some_iff.mp hroute
  refine ⟨dns, hdns, ?_⟩
  rw [hroute]
  rintro ⟨-, ⟨hne, -⟩ | ⟨-, hnone⟩⟩
  · exact hne (by rw [hsuffix]; rfl)
  · refine hnone oneLetter ?_ (by decide +kernel) (.inl (by decide +kernel))
    exact ⟨shortSuffixProfile, List.mem_singleton_self _, by decide +kernel,
      ⟨oneLetter, [resolver]⟩, by decide +kernel, rfl⟩

end Peerward.Management.EffectiveDns
