import Peerward.Dataplane.FlowUse

/-!
# Provenance of firewall authorizations

Whatever the firewall lets through on state goes back to a policy decision. The two relations below
say what "goes back to" means, on the operations of the run alone:

* `Sustained` — a packet of this flow was allowed by its policy callback, every packet that used the
  flow since came within the idle timeout of the phase its connection was in, and nothing cleared it;
* `Associated` — a first fragment with this identity was allowed by its policy callback, and nothing
  cleared its flow since.

Every table entry of a reachable firewall has such a history, by induction on the run.
-/

namespace Peerward.Dataplane.Firewall

open Std Peerward.Lib Peerward.Net

/-- Idle timeout of a flow: 600 s for TCP that is not closing, 60 s otherwise. -/
def idleSeconds (protocol : UInt8) (phase : Option TcpPhase) : Nat :=
  if phase = some .closing then 60 else if protocol = TCP then 600 else 60

/-- The operation, performed in state `fw`, revokes whatever was granted to `key`: a replacement
that took effect, an invalidation, or a `forget_flow` of the flow in either direction. -/
def Clears (fw : Firewall) (key : FlowKey) : Op → Prop
  | .evaluate _ _ _ => False
  | .forgetFlow forgotten => key = forgotten ∨ key = forgotten.reverse
  | .invalidateState => True
  | .replace revision default rules => (fw.replace revision default rules).1 = true

/-- The operation is a packet that uses the flow. -/
def UsedBy (hash : ShardHash) (fw : Firewall) (key : FlowKey) : Op → Prop
  | .evaluate packet now policy => Uses hash fw key packet now policy
  | _ => False

/-- The clock readings of a run, in order. -/
def times (ops : List Op) : List Nat := ops.filterMap Op.now?

/-- The clock never runs backwards. -/
def Nondecreasing (ops : List Op) : Prop := (times ops).Pairwise (· ≤ ·)

section Relations

variable (hash : ShardHash) (start : Firewall)

/-- `Sustained key ops last phase`: during `ops` the flow was opened by a policy decision, was last
used at `last`, was never idle for its whole timeout in between, was never reset or cleared, and its
TCP connection is now in `phase`. No use of the flow is passed over. -/
inductive Sustained (key : FlowKey) : List Op → Nat → Option TcpPhase → Prop
  | opened {ops packet now policy} :
      FlowKey.fromPacket packet = some key →
      Permits hash (run hash start ops) packet now policy →
      Sustained key (ops ++ [.evaluate packet now policy]) now
        (if packet.protocol = TCP then some .synSent else none)
  | used {ops last phase packet now policy phase'} :
      Sustained key ops last phase →
      Uses hash (run hash start ops) key packet now policy →
      (evaluateWithPolicy hash (run hash start ops) packet now policy).1.stateful = true →
      last ≤ now → now < last + idleSeconds key.protocol phase →
      resets packet = false →
      phaseAfter packet (FlowKey.fromPacket packet = some key) phase = some phase' →
      Sustained key (ops ++ [.evaluate packet now policy]) now phase'
  | passed {ops last phase op} :
      Sustained key ops last phase →
      ¬ UsedBy hash (run hash start ops) key op →
      ¬ Clears (run hash start ops) key op →
      Sustained key (ops ++ [op]) last phase

/-- `Associated key ops at flow`: during `ops`, at time `at`, a first fragment of `flow` with this
identity was allowed by its policy callback, and the flow was not cleared since. -/
inductive Associated (key : FragmentKey) : List Op → Nat → FlowKey → Prop
  | opened {ops packet fragment now policy flow} :
      packet.fragment = some fragment → fragment.offset = 0 → fragment.more = true →
      fragmentKey packet fragment = key →
      FlowKey.fromPacket packet = some flow →
      Permits hash (run hash start ops) packet now policy →
      Associated key (ops ++ [.evaluate packet now policy]) now flow
  | passed {ops openedAt flow op} :
      Associated key ops openedAt flow →
      ¬ Clears (run hash start ops) flow op →
      Associated key (ops ++ [op]) openedAt flow

end Relations

variable {hash : ShardHash} {start : Firewall}

/-! ## Clocks

`Sustained` is the history of a flow, read off the operations of a run: the evaluation that opened it, each
use of it since, with none left out, and no gap longer than the timeout of its phase. Such a history is
unique, so its phase is the phase of the flow.
-/

theorem times_concat (ops : List Op) (op : Op) : times (ops ++ [op]) = times ops ++ op.now?.toList := by
  cases op <;> simp [times, Op.now?]

theorem Nondecreasing.init {ops : List Op} {op : Op} (h : Nondecreasing (ops ++ [op])) :
    Nondecreasing ops := by
  rw [Nondecreasing, times_concat, List.pairwise_append] at h
  exact h.1

theorem Nondecreasing.le_now {ops : List Op} {packet : ParsedPacket} {now : Nat}
    {policy : PolicyCallback} (h : Nondecreasing (ops ++ [.evaluate packet now policy])) {t : Nat}
    (ht : t ∈ times ops) : t ≤ now := by
  rw [Nondecreasing, times_concat, List.pairwise_append] at h
  exact h.2.2 t ht now (by simp [Op.now?])

theorem Sustained.mem_times {key : FlowKey} {ops : List Op} {last : Nat} {phase : Option TcpPhase}
    (h : Sustained hash start key ops last phase) : last ∈ times ops := by
  induction h with
  | opened _ _ => simp [times_concat, Op.now?]
  | used _ _ _ _ _ _ _ _ => simp [times_concat, Op.now?]
  | passed _ _ _ ih => simp [times_concat, ih]

/-- One more operation opens the flow, uses it or has nothing to do with it. -/
theorem sustained_concat {key : FlowKey} {ops : List Op} {op : Op} {last : Nat}
    {phase : Option TcpPhase} (h : Sustained hash start key (ops ++ [op]) last phase) :
    (∃ packet policy, op = .evaluate packet last policy ∧ FlowKey.fromPacket packet = some key ∧
        Permits hash (run hash start ops) packet last policy ∧
        phase = if packet.protocol = TCP then some .synSent else none) ∨
      (∃ packet policy before old, op = .evaluate packet last policy ∧
        Sustained hash start key ops before old ∧
        Uses hash (run hash start ops) key packet last policy ∧
        (evaluateWithPolicy hash (run hash start ops) packet last policy).1.stateful = true ∧
        phaseAfter packet (FlowKey.fromPacket packet = some key) old = some phase) ∨
      (Sustained hash start key ops last phase ∧ ¬ UsedBy hash (run hash start ops) key op) := by
  generalize hops : ops ++ [op] = history at h
  cases h with
  | opened hflow hpermits =>
      obtain ⟨rfl, hop⟩ := List.append_inj' hops rfl
      cases hop
      exact .inl ⟨_, _, rfl, hflow, hpermits, rfl⟩
  | used hbefore huse hstateful _ _ _ hphase =>
      obtain ⟨rfl, hop⟩ := List.append_inj' hops rfl
      cases hop
      exact .inr (.inl ⟨_, _, _, _, rfl, hbefore, huse, hstateful, hphase⟩)
  | passed hbefore hunused _ =>
      obtain ⟨rfl, hop⟩ := List.append_inj' hops rfl
      cases hop
      exact .inr (.inr ⟨hbefore, hunused⟩)

/-- **A flow has one history**: the operations determine when it was last used, and in which phase its
connection is. -/
theorem Sustained.unique {key : FlowKey} {ops : List Op} {last last' : Nat}
    {phase phase' : Option TcpPhase} (h : Sustained hash start key ops last phase)
    (h' : Sustained hash start key ops last' phase') : last = last' ∧ phase = phase' := by
  induction h generalizing last' phase' with
  | @opened ops packet now policy hflow hpermits =>
      rcases sustained_concat h' with
        ⟨_, _, heq, -, -, rfl⟩ | ⟨_, _, _, _, heq, -, -, hstateful, -⟩ | ⟨-, hunused⟩
      · cases heq
        exact ⟨rfl, rfl⟩
      · cases heq
        rw [hpermits.stateful] at hstateful
        cases hstateful
      · exact absurd (hpermits.uses (.inl hflow)) hunused
  | @used ops last phase packet now policy after hbefore huse hstateful _ _ _ hphase ih =>
      rcases sustained_concat h' with
        ⟨_, _, heq, -, hpermits, -⟩ | ⟨_, _, before, old, heq, hold, -, -, hphase'⟩ | ⟨-, hunused⟩
      · cases heq
        rw [hpermits.stateful] at hstateful
        cases hstateful
      · cases heq
        obtain ⟨-, rfl⟩ := ih hold
        exact ⟨rfl, Option.some.inj (hphase.symm.trans hphase')⟩
      · exact absurd huse hunused
  | @passed ops last phase op hbefore hunused _ ih =>
      rcases sustained_concat h' with
        ⟨_, _, rfl, hflow, hpermits, -⟩ | ⟨_, _, _, _, rfl, -, huse, -⟩ | ⟨hold, -⟩
      · exact absurd (hpermits.uses (.inl hflow)) hunused
      · exact absurd huse hunused
      · exact ih hold

theorem Associated.mem_times {key : FragmentKey} {ops : List Op} {openedAt : Nat} {flow : FlowKey}
    (h : Associated hash start key ops openedAt flow) : openedAt ∈ times ops := by
  induction h with
  | opened _ _ _ _ _ _ => simp [times_concat, Op.now?]
  | passed _ _ ih => simp [times_concat, ih]

/-- Forgetting the flow a first fragment belongs to also drops its association. -/
theorem Associated.forgets {key : FragmentKey} {ops : List Op} {openedAt : Nat} {flow : FlowKey}
    (h : Associated hash start key ops openedAt flow) {forgotten : FlowKey}
    (hf : flow = forgotten ∨ flow = forgotten.reverse) : forgets forgotten key = true := by
  induction h with
  | passed _ _ ih => exact ih hf
  | @opened ops packet fragment now policy flow hfragment hoffset hmore hkey hflow hpermits =>
      have hflow' : flow = ⟨packet.source, packet.destination, packet.protocol, packet.sourcePort,
          packet.destinationPort⟩ := by
        simp only [FlowKey.fromPacket] at hflow
        split at hflow <;> cases hflow
        rfl
      subst hflow' hkey
      simp only [Firewall.forgets, Bool.and_eq_true, Bool.or_eq_true, decide_eq_true_eq]
      simp only [fragmentKey]
      refine ⟨?_, ?_⟩
      · cases hv6 : packet.source.isIpv6 with
        | true => exact .inr rfl
        | false =>
            left
            rcases hf with hf | hf
            · simp [← hf]
            · simpa using congrArg FlowKey.protocol hf
      · rcases hf with hf | hf
        · left
          simp [← hf]
        · right
          exact ⟨congrArg FlowKey.source hf, congrArg FlowKey.destination hf⟩

/-! ## The histories of table entries

An entry of a table has a history by induction on the run: it was opened, it was refreshed, or it is as it
was. An evaluation that uses the flow refreshes its entry, which is what makes the history complete.
-/

/-- The clocks `Firewall::new` sets. -/
def Standard (fw : Firewall) : Prop := fw.timeouts = (60, 600, 15)

theorem Standard.idle {fw : Firewall} (h : Standard fw) (protocol : UInt8)
    (phase : Option TcpPhase) : fw.idle protocol phase = idleSeconds protocol phase := by
  simp only [Standard, timeouts, Prod.mk.injEq] at h
  simp only [Firewall.idle, timeout, h.1, h.2.1, idleSeconds]

theorem Standard.run {fw : Firewall} (h : Standard fw) (ops : List Op) :
    Standard (run hash fw ops) := (run_timeouts fw ops).trans h

/-- The opening entry has the idle timeout of a connection that has just begun. -/
theorem Standard.opened {fw : Firewall} (h : Standard fw) (packet : ParsedPacket) (now : Nat) :
    (opened fw packet now).expiresAt =
      saturatingAdd now (idleSeconds packet.protocol (opened fw packet now).phase) := by
  simp only [Standard, timeouts, Prod.mk.injEq] at h
  simp only [Firewall.opened, timeout, h.1, h.2.1, idleSeconds]
  split <;> simp

/-- What the tables of a firewall reached by `ops` record. -/
structure Recorded (hash : ShardHash) (start : Firewall) (ops : List Op) (fw : Firewall) : Prop where
  flows : ∀ {k st}, flow? hash fw k = some st →
    ∃ last, Sustained hash start k ops last st.phase ∧
      st.expiresAt = saturatingAdd last (idleSeconds k.protocol st.phase)
  fragments : ∀ {k st}, fragment? hash fw k = some st →
    ∃ openedAt flow, Associated hash start k ops openedAt flow ∧
      st.expiresAt = saturatingAdd openedAt 15 ∧ st.action = .allow

/-- A step that deletes entries, and all entries of the keys it clears, keeps the record. -/
theorem Recorded.of_sub {ops : List Op} {op : Op} {fw : Firewall}
    (h : Recorded hash start ops (run hash start ops)) (hsub : Sub hash fw (run hash start ops))
    (hunused : ∀ k, ¬ UsedBy hash (run hash start ops) k op)
    (hflow : ∀ k, Clears (run hash start ops) k op → flow? hash fw k = none)
    (hfragment : ∀ k openedAt flow, Associated hash start k ops openedAt flow →
      Clears (run hash start ops) flow op → fragment? hash fw k = none) :
    Recorded hash start (ops ++ [op]) fw where
  flows := by
    intro k st hk
    obtain ⟨last, hlast, hdue⟩ := h.flows (hsub.flows hk)
    refine ⟨last, hlast.passed (hunused k) fun hclears => ?_, hdue⟩
    rw [hflow k hclears] at hk
    cases hk
  fragments := by
    intro k st hk
    obtain ⟨openedAt, flow, hassoc, hdue, haction⟩ := h.fragments (hsub.fragments hk)
    refine ⟨openedAt, flow, hassoc.passed fun hclears => ?_, hdue, haction⟩
    rw [hfragment k openedAt flow hassoc hclears] at hk
    cases hk

theorem Recorded.evaluate {ops : List Op} (hstd : Standard start) (hwf : start.WF)
    (hone : OneWay hash start) (h : Recorded hash start ops (run hash start ops))
    (packet : ParsedPacket) (now : Nat) (policy : PolicyCallback)
    (hmono : Nondecreasing (ops ++ [.evaluate packet now policy])) :
    Recorded hash start (ops ++ [.evaluate packet now policy])
      (evaluateWithPolicy hash (run hash start ops) packet now policy).2 where
  flows := by
    intro k st hk
    rcases evaluate_use (run_wf hwf ops) (run_oneWay hwf hone ops) hk with
      ⟨hbefore, hunused⟩ | ⟨huse, hstateful, old, hold, hrefreshed⟩ | ⟨hflow, hpermits, rfl⟩
    · obtain ⟨last, hlast, hdue⟩ := h.flows hbefore
      exact ⟨last, hlast.passed hunused id, hdue⟩
    · obtain ⟨last, hlast, holddue⟩ := h.flows hold
      have hproto : packet.protocol = k.protocol := by
        rcases huse.own with hown | hown
        · exact (FlowKey.fromPacket_protocol hown).symm
        · exact (FlowKey.fromPacket_protocol hown).symm
      have hidle : now < last + idleSeconds k.protocol old.phase :=
        Nat.lt_of_lt_of_le hrefreshed.live (holddue ▸ saturatingAdd_le _ _)
      refine ⟨now, .used hlast huse hstateful (hmono.le_now hlast.mem_times) hidle hrefreshed.kept
        hrefreshed.phase, ?_⟩
      rw [hrefreshed.deadline, (hstd.run ops).idle, hproto]
    · refine ⟨now, .opened hflow hpermits, ?_⟩
      rw [(hstd.run ops).opened, FlowKey.fromPacket_protocol hflow]
  fragments := by
    intro k st hk
    rcases evaluate_fragment hk with hbefore | ⟨hpermits, fragment, hfragment, hoffset, hmore, rfl, rfl⟩
    · obtain ⟨openedAt, flow, hassoc, hdue, haction⟩ := h.fragments hbefore
      exact ⟨openedAt, flow, hassoc.passed id, hdue, haction⟩
    · have hflow : FlowKey.fromPacket packet = some ⟨packet.source, packet.destination,
          packet.protocol, packet.sourcePort, packet.destinationPort⟩ := by
        simp [FlowKey.fromPacket, hfragment, hoffset]
      have htimeouts : (run hash start ops).timeouts = (60, 600, 15) := hstd.run ops
      simp only [timeouts, Prod.mk.injEq] at htimeouts
      refine ⟨now, _, .opened hfragment hoffset hmore rfl hflow hpermits, ?_, rfl⟩
      rw [association, htimeouts.2.2]

/-- **Every table entry of every reachable firewall has a history.** -/
theorem recorded (hstd : Standard start) (hempty : ∀ index, start.shards index = {}) (ops : List Op)
    (hmono : Nondecreasing ops) : Recorded hash start ops (run hash start ops) := by
  have hwf : start.WF := fun index => by
    rw [hempty]
    exact Shard.WF.empty
  have hone : OneWay hash start := by
    intro k st hk
    simp [flow?, hempty] at hk
  have hall := @exec_history _ _ (step hash) start
    (fun ops fw => Nondecreasing ops → fw = run hash start ops ∧ Recorded hash start ops fw)
    ?_ ?_ ops
  · exact (hall hmono).2
  · intro _
    refine ⟨rfl, ?_, ?_⟩
    · intro k st hk
      simp [flow?, hempty] at hk
    · intro k st hk
      simp [fragment?, hempty] at hk
  · intro ops op ih hmono
    obtain ⟨-, ih⟩ := ih hmono.init
    refine ⟨(exec_concat _ _ _ _).symm, ?_⟩
    cases op with
    | evaluate packet now policy => exact Recorded.evaluate hstd hwf hone ih packet now policy hmono
    | forgetFlow key =>
        exact ih.of_sub (forgetFlow_sub _ key) (fun _ => id) (fun k hk => forgetFlow_flow hk)
          (fun k openedAt flow hassoc hclears => forgetFlow_fragment (hassoc.forgets hclears))
    | invalidateState =>
        refine ih.of_sub ⟨?_, ?_⟩ (fun _ => id) (fun k _ => invalidateState_flow _ k)
          (fun k _ _ _ _ => invalidateState_fragment _ k)
        · intro k st hk
          simp [step] at hk
        · intro k st hk
          simp [step] at hk
    | replace revision default rules =>
        rcases @replace_cases hash (run hash start ops) revision default rules with
          ⟨hfalse, hsame⟩ | ⟨htrue, hflows, hfragments⟩
        · refine ih.of_sub (hsame ▸ Sub.refl hash _) (fun _ => id) ?_ ?_
          · intro k hclears
            rw [Clears, hfalse] at hclears
            cases hclears
          · intro k openedAt flow _ hclears
            rw [Clears, hfalse] at hclears
            cases hclears
        · refine ih.of_sub ⟨?_, ?_⟩ (fun _ => id) (fun k _ => hflows k) (fun k _ _ _ _ => hfragments k)
          · intro k st hk
            exact absurd ((hflows k).symm.trans hk) (by simp)
          · intro k st hk
            exact absurd ((hfragments k).symm.trans hk) (by simp)

/-- **Firewall authorization has provenance.** A packet that existing state lets through is a later
fragment of a datagram whose first fragment the policy allowed less than 15 seconds ago, or belongs
to (or quotes) a flow the policy allowed and that has been in use ever since, within 60 seconds once
its connection is closing; in both cases nothing cleared the flow in between. -/
theorem stateful_allow_has_provenance (hash : ShardHash) (revision : Nat) (default : Action)
    (rules : List Rule) (stateLimit shardCount : Nat) (ops : List Op) (packet : ParsedPacket)
    (now : Nat) (policy : PolicyCallback)
    (hmono : Nondecreasing (ops ++ [.evaluate packet now policy]))
    (haction : (evaluateWithPolicy hash
      (run hash (Firewall.new revision default rules stateLimit shardCount) ops)
      packet now policy).1.action = .allow)
    (hstateful : (evaluateWithPolicy hash
      (run hash (Firewall.new revision default rules stateLimit shardCount) ops)
      packet now policy).1.stateful = true) :
    (∃ fragment flow openedAt, packet.fragment = some fragment ∧ fragment.offset ≠ 0 ∧
        Associated hash (Firewall.new revision default rules stateLimit shardCount)
          (fragmentKey packet fragment) ops openedAt flow ∧
        openedAt ≤ now ∧ now < openedAt + 15) ∨
      ∃ key ∈ authorizingKeys packet, ∃ last phase,
        Sustained hash (Firewall.new revision default rules stateLimit shardCount)
          key ops last phase ∧
        last ≤ now ∧ now < last + idleSeconds key.protocol phase := by
  have hrec := @recorded hash (Firewall.new revision default rules stateLimit shardCount) rfl
    (fun _ => rfl) ops hmono.init
  have hwf := @run_wf hash _ (WF.new revision default rules stateLimit shardCount) ops
  rcases evaluate_stateful hwf haction hstateful with
    ⟨fragment, st, hfragment, hoffset, hst, hnow⟩ | ⟨key, hkey, st, hst⟩
  · obtain ⟨openedAt, flow, hassoc, hdue, -⟩ := hrec.fragments hst
    exact .inl ⟨fragment, flow, openedAt, hfragment, hoffset, hassoc,
      hmono.le_now hassoc.mem_times, Nat.lt_of_lt_of_le hnow (hdue ▸ saturatingAdd_le _ _)⟩
  · obtain ⟨hst, hnow⟩ := live?_eq_some.mp hst
    obtain ⟨last, hlast, hdue⟩ := hrec.flows hst
    exact .inr ⟨key, hkey, last, st.phase, hlast, hmono.le_now hlast.mem_times,
      Nat.lt_of_lt_of_le hnow (hdue ▸ saturatingAdd_le _ _)⟩

/-- A packet from 10.0.0.2, port 40000, to a server on 10.0.1.53. -/
def toServer (flags : UInt8) : ParsedPacket where
  source := .v4 0x0a000002#32
  destination := .v4 0x0a000135#32
  protocol := TCP
  sourcePort := some 40000
  destinationPort := some 443
  tcpFlags := some flags
  icmp := none
  fragment := none
  packetLen := 40
  relatedFlow := none

/-- A packet of the server on the same connection. -/
def fromServer (flags : UInt8) : ParsedPacket :=
  { toServer flags with
    source := (toServer flags).destination
    destination := (toServer flags).source
    sourcePort := some 443
    destinationPort := some 40000 }

/-- A connection that is allowed, established and then closed from one side. -/
def closing : List Op :=
  [ .evaluate (toServer TCP_SYN) 1 fun _ => (.allow, none),
    .evaluate (fromServer (TCP_SYN ||| TCP_ACK)) 2 fun _ => (.deny, none),
    .evaluate (toServer TCP_ACK) 3 fun _ => (.deny, none),
    .evaluate (toServer (TCP_FIN ||| TCP_ACK)) 4 fun _ => (.deny, none) ]

/-- The server may still answer a minute after the first FIN, and the history of its packet is the
connection. -/
theorem closing_has_provenance :
    ∃ key ∈ authorizingKeys (fromServer TCP_ACK), ∃ last phase,
      Sustained ⟨fun _ => 0, fun _ => 0⟩ (Firewall.new 1 .deny [] 16 2) key closing last phase ∧
      last ≤ 63 ∧ 63 < last + idleSeconds key.protocol phase := by
  rcases stateful_allow_has_provenance ⟨fun _ => 0, fun _ => 0⟩ 1 .deny [] 16 2 closing
      (fromServer TCP_ACK) 63 (fun _ => (.deny, none)) (by simp [Nondecreasing, times, Op.now?, closing])
      (by decide +kernel) (by decide +kernel) with
    ⟨fragment, _, _, hfragment, _⟩ | hflow
  · cases hfragment
  · exact hflow

end Peerward.Dataplane.Firewall
