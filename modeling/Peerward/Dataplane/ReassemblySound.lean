import Peerward.Dataplane.Rebuild

/-!
# Soundness of reassembly

Whatever is pushed, in whatever order and at whatever times, a completed datagram consists of
fragments that were pushed under one key, each at its own offset and nothing between them, and the
parser reads the same headers from it as from the fragment at offset zero.

The invariant that carries this is `Sourced`: the intervals of a set lie apart, each goes back to a
pushed packet with the set's key, and the header template is that of the fragment at offset zero.
-/

namespace Peerward.Dataplane.FragmentReassembler

open Std Peerward.Lib Peerward.Net

/-- Where the contents of the set under `key` come from. -/
structure Sourced (ops : List Op) (key : ReassemblyKey) (set : FragmentSet) : Prop where
  tidy : Tidy set
  stored : ∀ (o : Nat) (st : StoredFragment), set.fragments[o]? = some st →
    ∃ part : FragmentPacket, part.bytes = st.original ∧ part.payload = st.payload ∧
      part.start = o ∧ part.key = key ∧ (∃ t, Op.push part.bytes t ∈ ops) ∧
      (o = 0 → set.template = some part.decoded.template)
  template : set.template ≠ none → set.fragments[0]? ≠ none

theorem Sourced.mono {ops ops' : List Op} {key : ReassemblyKey} {set : FragmentSet}
    (h : Sourced ops key set) (hsub : ∀ op ∈ ops, op ∈ ops') : Sourced ops' key set where
  tidy := h.tidy
  stored := by
    intro o st hst
    obtain ⟨part, hbytes, hpayload, hstart, hkey, ⟨t, ht⟩, htemplate⟩ := h.stored o st hst
    exact ⟨part, hbytes, hpayload, hstart, hkey, ⟨t, hsub _ ht⟩, htemplate⟩
  template := h.template

theorem Sourced.fresh (ops : List Op) (key : ReassemblyKey) (expiresAt : Nat) :
    Sourced ops key { source := key.source, expiresAt := expiresAt } where
  tidy := .fresh _ _
  stored := by
    intro o st hst
    simp at hst
  template := by
    intro h
    exact absurd rfl h

/-- Accepting a pushed fragment keeps the record. -/
theorem Sourced.accept {ops : List Op} {key : ReassemblyKey} {set set' : FragmentSet}
    (h : Sourced ops key set) {part : FragmentPacket} (hkey : part.key = key)
    (hpushed : ∃ t, Op.push part.bytes t ∈ ops) {stop amount : Nat}
    (hprepare : prepare part.bytes part.fragment = .ok (part.decoded, stop))
    (haccept : accept set part.fragment part.start stop part.decoded part.bytes amount = .ok set') :
    Sourced ops key set' := by
  obtain ⟨-, hstop, -, hne, -⟩ := prepare_eq_ok.mp hprepare
  replace hstop : stop = part.start + part.decoded.payload.length := hstop
  have hpos := List.length_pos_of_ne_nil hne
  obtain ⟨hadmits, rfl⟩ := (accept_eq_ok h.tidy (by omega)).mp haccept
  subst hstop
  refine ⟨h.tidy.accepted hne hadmits _ _, ?_, ?_⟩
  · intro o st hst
    rw [getElem?_accepted] at hst
    split at hst
    · next heq =>
      cases hst
      refine ⟨part, rfl, rfl, heq, hkey, hpushed, fun hzero => ?_⟩
      simp only [accepted]
      rw [if_pos (by omega)]
    · next hother =>
      obtain ⟨other, hbytes, hpayload, hstart, hkey', hpushed', htemplate⟩ := h.stored o st hst
      refine ⟨other, hbytes, hpayload, hstart, hkey', hpushed', fun hzero => ?_⟩
      simp only [accepted]
      rw [if_neg (by omega), htemplate hzero]
  · intro htemplate
    rw [getElem?_accepted]
    split
    · simp
    · next hother =>
      apply h.template
      simp only [accepted] at htemplate
      rwa [if_neg hother] at htemplate

/-- Every set of a reassembler reached by `ops` is sourced in `ops`. -/
def AllSourced (ops : List Op) (r : FragmentReassembler) : Prop :=
  ∀ (key : ReassemblyKey) (set : FragmentSet), r.sets[key]? = some set → Sourced ops key set

theorem AllSourced.mono {ops ops' : List Op} {r : FragmentReassembler} (h : AllSourced ops r)
    (hsub : ∀ op ∈ ops, op ∈ ops') : AllSourced ops' r :=
  fun key set hset => (h key set hset).mono hsub

theorem AllSourced.expire {ops : List Op} {r : FragmentReassembler} (h : AllSourced ops r)
    (now : Nat) : AllSourced ops (r.expire now) :=
  fun key set hset => h key set (expire_sets hset)

theorem AllSourced.removeSet {ops : List Op} {r : FragmentReassembler} (h : AllSourced ops r)
    (key : ReassemblyKey) : AllSourced ops (r.removeSet key) := by
  intro k set hset
  rw [removeSet_sets] at hset
  split at hset
  · cases hset
  · exact h k set hset

theorem AllSourced.openSet {ops : List Op} {r : FragmentReassembler} (h : AllSourced ops r)
    (key : ReassemblyKey) (now : Nat) :
    Sourced ops key (r.openSet key now).1 ∧ AllSourced ops (r.openSet key now).2 := by
  unfold FragmentReassembler.openSet
  cases hset : r.sets[key]? with
  | some set => exact ⟨h key set hset, h⟩
  | none =>
      refine ⟨.fresh ops key _, ?_⟩
      intro k set hk
      simp only [ExtTreeMap.getElem?_insert, LawfulEqOrd.compare_eq_iff_eq] at hk
      split at hk
      · next heq =>
        cases hk
        rw [← heq]
        exact .fresh ops key _
      · exact h k set hk

theorem AllSourced.storeSet {ops : List Op} {r : FragmentReassembler} (h : AllSourced ops r)
    {key : ReassemblyKey} {set : FragmentSet} (hset : Sourced ops key set) (amount : Nat) :
    AllSourced ops (r.storeSet key set amount) := by
  intro k set' hk
  rw [storeSet_sets] at hk
  split at hk
  · next heq =>
    cases hk
    rw [← heq]
    exact hset
  · exact h k set' hk

/-- A submission keeps the record; the record of a set that is completed is returned as well. -/
theorem AllSourced.push {ops : List Op} {r : FragmentReassembler} (h : AllSourced ops r)
    (packet : Bytes) (now : Nat) : AllSourced (ops ++ [.push packet now]) (r.push packet now).2 ∧
      ∀ (parsed : ParsedPacket) (fragment : Fragment) (datagram : ReassembledDatagram),
        parsePacket packet = .ok parsed → parsed.fragment = some fragment →
        (fragment.offset ≠ 0 ∨ fragment.more = true) →
        (r.push packet now).1 = .ok (.complete datagram) →
        ∃ set whole, Sourced (ops ++ [.push packet now]) (.ofParsed parsed fragment) set ∧
          isComplete set = true ∧ assemble set = .ok datagram ∧
          parsePacket datagram.packet = .ok whole := by
  have hexpired : AllSourced (ops ++ [.push packet now]) (r.expire now) :=
    (h.mono fun op hop => by simp [hop]).expire now
  rcases @push_eq r packet now with ⟨result, hpush, hwhole⟩ |
    ⟨parsed, fragment, hparse, hfragment, -, hpush⟩
  · rw [hpush]
    refine ⟨hexpired, ?_⟩
    intro parsed fragment datagram hparse hfragment hpart
    obtain ⟨hzero, hlast⟩ := hwhole parsed fragment hparse hfragment
    rcases hpart with hpart | hpart
    · exact absurd hzero hpart
    · rw [hlast] at hpart
      cases hpart
  -- the packet is a fragment: one case for each thing `push` can do with it
  rw [hpush]
  have hopen := hexpired.openSet (.ofParsed parsed fragment) now
  have hset : ∀ {decoded stop set}, prepare packet fragment = .ok (decoded, stop) →
      FragmentReassembler.accept ((r.expire now).openSet (.ofParsed parsed fragment) now).1 fragment
        (fragment.offset * 8) stop decoded packet (charge decoded packet) = .ok set →
      Sourced (ops ++ [.push packet now]) (.ofParsed parsed fragment) set := by
    intro decoded stop set hprepare haccept
    obtain ⟨hdecodes, -⟩ := prepare_eq_ok.mp hprepare
    let part : FragmentPacket := ⟨packet, parsed, fragment, decoded, hparse, hfragment, hdecodes⟩
    have hkey : part.key = .ofParsed parsed fragment := rfl
    exact hopen.1.accept hkey ⟨now, by simp [part]⟩ hprepare haccept
  have hcases := pushed (r.expire now) packet now parsed fragment
  generalize (r.expire now).pushFragment packet now parsed fragment = result at hcases
  cases hcases with
  | refused =>
      refine ⟨hexpired.removeSet _, ?_⟩
      intro _ _ datagram _ _ _ hresult
      cases hresult
  | discarded =>
      refine ⟨hopen.2.removeSet _, ?_⟩
      intro _ _ datagram _ _ _ hresult
      cases hresult
  | spoiled hprepare haccept =>
      refine ⟨((hopen.2.storeSet (hset hprepare haccept) _).removeSet _).removeSet _, ?_⟩
      intro _ _ datagram _ _ _ hresult
      cases hresult
  | pending hprepare haccept _ =>
      refine ⟨hopen.2.storeSet (hset hprepare haccept) _, ?_⟩
      intro _ _ datagram _ _ _ hresult
      cases hresult
  | @completed decoded stop set datagram whole hprepare haccept hcomplete hassemble hwhole =>
      refine ⟨(hopen.2.storeSet (hset hprepare haccept) _).removeSet _, ?_⟩
      intro parsed' fragment' datagram' hparse' hfragment' _ hresult
      cases hresult
      -- the packet has one parse and at most one fragment header
      have hparsed : parsed = parsed' := Except.ok.inj (hparse.symm.trans hparse')
      subst hparsed
      have hsame : fragment = fragment' := Option.some.inj (hfragment.symm.trans hfragment')
      subst hsame
      exact ⟨set, whole, hset hprepare haccept, hcomplete, hassemble, hwhole⟩

theorem allSourced {start : FragmentReassembler} (hempty : start.sets = ∅) (ops : List Op) :
    AllSourced ops (run start ops) := by
  apply exec_history (I := AllSourced)
  · intro key set hset
    simp [hempty] at hset
  · intro ops op ih
    cases op with
    | push packet now => exact (ih.push packet now).1
    | expire now => exact (ih.mono fun op hop => by simp [hop]).expire now

theorem new_sets {perSourceBytes globalBytes timeoutSeconds : Nat} {start : FragmentReassembler}
    (h : new perSourceBytes globalBytes timeoutSeconds = .ok start) : start.sets = ∅ := by
  unfold new at h
  split at h
  · cases h
  · cases h
    rfl

/-! ## Complete sets -/

theorem assemble_eq_ok {set : FragmentSet} {datagram : ReassembledDatagram}
    (h : assemble set = .ok datagram) : ∃ template, set.template = some template ∧
      rebuild template ((set.fragments.toList.map Prod.snd).flatMap StoredFragment.payload) =
        .ok datagram.packet ∧
      datagram.originalFragments =
        (set.fragments.toList.map Prod.snd).map StoredFragment.original := by
  unfold assemble at h
  simp only [bind_eq_ok] at h
  obtain ⟨template, htemplate, packet, hpacket, hdatagram⟩ := h
  cases hset : set.template with
  | none =>
      rw [hset] at htemplate
      cases htemplate
  | some found =>
      rw [hset] at htemplate
      cases htemplate
      cases hdatagram
      exact ⟨_, rfl, hpacket, rfl⟩

/-- The packets behind a complete set, in the order of their offsets: their payloads follow each other
without a gap, and the first of them gave the set its template. -/
theorem Sourced.parts {ops : List Op} {key : ReassemblyKey} {set : FragmentSet}
    (h : Sourced ops key set) (hfull : isComplete set = true) :
    ∃ parts : List FragmentPacket,
      parts.map FragmentPacket.bytes =
        (set.fragments.toList.map Prod.snd).map StoredFragment.original ∧
      parts.flatMap FragmentPacket.payload =
        (set.fragments.toList.map Prod.snd).flatMap StoredFragment.payload ∧
      (∀ part ∈ parts, part.key = key ∧ part.payload ≠ [] ∧ ∃ t, Op.push part.bytes t ∈ ops) ∧
      (∀ before part after, parts = before ++ part :: after →
        part.start = (before.flatMap FragmentPacket.payload).length) ∧
      ∃ first rest, parts = first :: rest ∧ set.template = some first.decoded.template := by
  unfold isComplete at hfull
  simp only [Bool.and_eq_true, Option.isSome_iff_ne_none, decide_eq_true_eq] at hfull
  obtain ⟨htemplate, hfinal⟩ := hfull
  obtain ⟨zero, hzero⟩ := Option.ne_none_iff_exists'.mp (h.template htemplate)
  obtain ⟨witness, -⟩ := h.stored 0 zero hzero
  have : Nonempty FragmentPacket := ⟨witness⟩
  -- one pushed packet for each entry
  have hstored : ∀ e ∈ set.fragments.toList, ∃ part : FragmentPacket, part.bytes = e.2.original ∧
      part.payload = e.2.payload ∧ part.start = e.1 ∧ part.key = key ∧
      (∃ t, Op.push part.bytes t ∈ ops) ∧
      (e.1 = 0 → set.template = some part.decoded.template) := by
    intro e he
    exact h.stored e.1 e.2 (ExtTreeMap.mem_toList_iff_getElem?_eq_some.mp he)
  choose! f hbytes hpayload hstart hkey hpushed hfirst using hstored
  have hpos : ∀ e ∈ set.fragments.toList, 0 < span e.2 := by
    intro e he
    exact h.tidy.pos (ExtTreeMap.mem_toList_iff_getElem?_eq_some.mp he)
  have hoffset : ∀ {before after : List (Nat × StoredFragment)} {e : Nat × StoredFragment},
      set.fragments.toList = before ++ e :: after →
      e.1 = (before.map fun entry => span entry.2).sum := by
    intro before after e heq
    exact start_eq_of_total h.tidy.apart (fun o st hst => h.tidy.within hfinal hst)
      h.tidy.total.symm heq
  have hlength : ∀ before : List (Nat × StoredFragment), (∀ e ∈ before, e ∈ set.fragments.toList) →
      ((before.map f).flatMap FragmentPacket.payload).length =
        (before.map fun entry => span entry.2).sum := by
    intro before hmem
    rw [List.length_flatMap, List.map_map]
    congr 1
    apply List.map_congr_left
    intro e he
    show (f e).payload.length = _
    rw [hpayload e (hmem e he)]
    rfl
  refine ⟨set.fragments.toList.map f, ?_, ?_, ?_, ?_, ?_⟩
  · rw [List.map_map, List.map_map]
    exact List.map_congr_left hbytes
  · rw [List.flatMap_map, List.flatMap_map]
    exact List.flatMap_congr hpayload
  · intro part hpart
    obtain ⟨e, he, rfl⟩ := List.mem_map.mp hpart
    refine ⟨hkey e he, ?_, hpushed e he⟩
    rw [hpayload e he]
    exact List.ne_nil_of_length_pos (hpos e he)
  · intro before part after heq
    obtain ⟨before, tail, hsplit, rfl, htail⟩ := List.map_eq_append_iff.mp heq
    obtain ⟨e, after, rfl, rfl, rfl⟩ := List.map_eq_cons_iff.mp htail
    have he : e ∈ set.fragments.toList := by
      rw [hsplit]
      simp
    rw [hstart e he, hoffset hsplit, hlength]
    intro e' he'
    rw [hsplit]
    simp [he']
  · have hmem : (0, zero) ∈ set.fragments.toList :=
      ExtTreeMap.mem_toList_iff_getElem?_eq_some.mpr hzero
    obtain ⟨e, rest, hcons⟩ := List.exists_cons_of_ne_nil (List.ne_nil_of_mem hmem)
    have he : e ∈ set.fragments.toList := by
      rw [hcons]
      exact List.mem_cons_self
    refine ⟨f e, rest.map f, by rw [hcons, List.map_cons], hfirst e he ?_⟩
    exact @hoffset [] _ _ hcons

/-- **Reassembly is sound against adversarial fragments.** When a fragment completes a datagram, the
returned originals were all pushed in the run under its key; their payloads stand one after another,
each at its own offset, behind a header as long as that of the first fragment; and the datagram parses
as a whole packet with the headers of that first fragment. -/
theorem completed_datagram_is_sound (perSourceBytes globalBytes timeoutSeconds : Nat)
    (start : FragmentReassembler)
    (hstart : new perSourceBytes globalBytes timeoutSeconds = .ok start) (ops : List Op)
    (packet : Bytes) (now : Nat) (parsed : ParsedPacket) (fragment : Fragment)
    (hparse : parsePacket packet = .ok parsed) (hfragment : parsed.fragment = some fragment)
    (hpart : fragment.offset ≠ 0 ∨ fragment.more = true) (datagram : ReassembledDatagram)
    (hcomplete : ((run start ops).push packet now).1 = .ok (.complete datagram)) :
    ∃ (parts : List FragmentPacket) (first : FragmentPacket) (header : Bytes) (whole : ParsedPacket),
      datagram.originalFragments = parts.map FragmentPacket.bytes ∧
      (∀ part ∈ parts, part.key = .ofParsed parsed fragment ∧ part.payload ≠ [] ∧
        ∃ t, Op.push part.bytes t ∈ ops ++ [.push packet now]) ∧
      datagram.packet = header ++ parts.flatMap FragmentPacket.payload ∧
      (∀ before part after, parts = before ++ part :: after →
        part.start = (before.flatMap FragmentPacket.payload).length) ∧
      parts.head? = some first ∧ first.fragment.offset = 0 ∧
      header.length = first.decoded.template.length ∧
      parsePacket datagram.packet = .ok whole ∧ whole.fragment = none ∧
      SameHeaders whole first.parsed := by
  obtain ⟨set, whole, hset, hfull, hassemble, hwhole⟩ :=
    ((allSourced (new_sets hstart) ops).push packet now).2 parsed fragment datagram hparse hfragment
      hpart hcomplete
  obtain ⟨template, htemplate, hrebuild, horiginals⟩ := assemble_eq_ok hassemble
  obtain ⟨parts, hbytes, hpayload, hpushed, hoffsets, first, rest, hparts, hfirst⟩ :=
    hset.parts hfull
  have hzero : first.fragment.offset = 0 := by
    have hstart := hoffsets [] first rest hparts
    simp only [FragmentPacket.start, List.flatMap_nil, List.length_nil] at hstart
    omega
  have hsame : template = first.decoded.template := Option.some.inj (htemplate.symm.trans hfirst)
  subst hsame
  rw [← hpayload] at hrebuild
  obtain ⟨header, hpacket, hheader⟩ := rebuild_shape hrebuild
  refine ⟨parts, first, header, whole, horiginals.trans hbytes.symm, hpushed, hpacket, hoffsets, ?_,
    hzero, hheader, hwhole, ?_⟩
  · rw [hparts]
    rfl
  · rw [hparts, List.flatMap_cons] at hrebuild
    exact rebuilt_same hzero hrebuild hwhole

/-- The first eight bytes of a UDP datagram, as an IPv4 fragment. -/
def udpHead : Bytes :=
  [69, 0, 0, 28, 0, 7, 32, 0, 64, 17, 70, 200, 10, 0, 0, 1, 10, 0, 0, 2, 3, 232, 7, 208, 0, 16, 0, 0]

/-- The rest of that datagram. -/
def udpTail : Bytes :=
  [69, 0, 0, 28, 0, 7, 0, 1, 64, 17, 102, 199, 10, 0, 0, 1, 10, 0, 0, 2, 1, 2, 3, 4, 5, 6, 7, 8]

/-- The datagram as a whole. -/
def udpWhole : Bytes :=
  [69, 0, 0, 36, 0, 7, 0, 0, 64, 17, 102, 192, 10, 0, 0, 1, 10, 0, 0, 2, 3, 232, 7, 208, 0, 16, 0, 0,
    1, 2, 3, 4, 5, 6, 7, 8]

/-- A run that completes a datagram, tail first. -/
theorem two_fragments_complete_soundly :
    ∃ (start : FragmentReassembler) (parsed : ParsedPacket) (fragment : Fragment),
      new 4096 8192 30 = .ok start ∧ parsePacket udpHead = .ok parsed ∧
      parsed.fragment = some fragment ∧
      ((run start [.push udpTail 1]).push udpHead 2).1 =
        .ok (.complete { packet := udpWhole, originalFragments := [udpHead, udpTail] }) ∧
      ∃ whole, parsePacket udpWhole = .ok whole ∧ whole.fragment = none ∧
        SameHeaders whole parsed := by
  let start : FragmentReassembler :=
    { perSourceBytes := 4096, globalBytes := 8192, timeoutSeconds := 30 }
  let fragment : Fragment := { identification := 7, offset := 0, more := true }
  have hread : (parsePacket udpHead).toOption.bind ParsedPacket.fragment = some fragment := by
    decide +kernel
  obtain ⟨parsed, hparse, hfragment⟩ : ∃ parsed, parsePacket udpHead = .ok parsed ∧
      parsed.fragment = some fragment := by
    cases hparse : parsePacket udpHead with
    | error err =>
        rw [hparse] at hread
        cases hread
    | ok parsed =>
        rw [hparse] at hread
        exact ⟨parsed, rfl, hread⟩
  have hcomplete : ((run start [.push udpTail 1]).push udpHead 2).1 =
      .ok (.complete { packet := udpWhole, originalFragments := [udpHead, udpTail] }) := by
    decide +kernel
  obtain ⟨parts, first, header, whole, horiginals, -, -, -, hhead, -, -, hwhole, hnone, hsame⟩ :=
    completed_datagram_is_sound 4096 8192 30 start rfl [.push udpTail 1] udpHead 2 parsed fragment
      hparse hfragment (.inr rfl) _ hcomplete
  have hbytes : first.bytes = udpHead := by
    cases parts with
    | nil => cases hhead
    | cons part parts =>
        cases hhead
        exact (List.cons.inj horiginals).1.symm
  have hparsed : first.parsed = parsed :=
    Except.ok.inj (first.parses.symm.trans (by rw [hbytes, hparse]))
  rw [hparsed] at hsame
  exact ⟨start, parsed, fragment, rfl, hparse, hfragment, hcomplete, whole, hwhole, hnone, hsame⟩

end Peerward.Dataplane.FragmentReassembler
