import Peerward.Android.TunSteps

/-!
# Answers and connections

A pending query names its connection by key only. An answer goes to the connection that asked as long as
no connection is opened under the key of a query that still waits; a SYN for such a key, a repeated one
included, hands the answer to the new connection.
-/

namespace Peerward.Android

open Std Peerward.Lib

/-- The operation hands out `token`. -/
def issues (token : Nat) (proxy : TunDnsProxy) : TunOp → Bool
  | .inspect packet =>
    match (proxy.inspect packet).1 with
    | .ok (.resolve issued _ _ _) => issued = token
    | _ => false
  | .complete .. => false

/-- The operation takes the query of `token`. -/
def completes (token : Nat) (proxy : TunDnsProxy) : TunOp → Bool
  | .inspect _ => false
  | .complete completed response =>
    completed = token && !(completed = 0 || MAX_DNS_MESSAGE < response.length)
      && proxy.pending.contains completed

/-- Opening a connection under `key` puts out the oldest one. -/
def Evicts (proxy : TunDnsProxy) (key oldest : TcpKey) : Prop :=
  key ∉ proxy.tcpFlows ∧ MAX_TCP_FLOWS ≤ proxy.tcpFlows.size ∧ proxy.flowOrder.head? = some oldest

/-- A RST, a FIN or a SYN for `key`, or its eviction. -/
def Ends (key : TcpKey) (proxy : TunDnsProxy) (op : TunOp) : Prop :=
  ∃ packet request, op = .inspect packet ∧ Addressed proxy packet request ∧
    ((request.key = key ∧ (request.flags &&& TCP_RST ≠ 0 ∨ opens request ∨ request.flags &&& TCP_FIN ≠ 0)) ∨
      (opens request ∧ Evicts proxy request.key key))

/-- The connection that asked under `token` is still the one of `key`. -/
def StillOpen (start : TunDnsProxy) (token : Nat) (key : TcpKey) (ops : List TunOp) : Prop :=
  Since TunDnsProxy.step start (fun proxy op => issues token proxy op = true) (Ends key) ops

/-- Completing a TCP query answers the connection that asked, or nobody. -/
structure AnswersAsker (start : TunDnsProxy) (ops : List TunOp) (token : Nat) (response : Bytes)
    (key : TcpKey) : Prop where
  asker : (((start.after ops).complete token response).2.tcpFlows ≠ (start.after ops).tcpFlows ∨
      ∃ packets, ((start.after ops).complete token response).1 = .ok packets) →
    StillOpen start token key ops
  nobody : ¬ StillOpen start token key ops →
    (∃ failure, ((start.after ops).complete token response).1 = .error failure) ∧
      ((start.after ops).complete token response).2.tcpFlows = (start.after ops).tcpFlows

/-- The operation opens no connection under the key of a query that waits. -/
def LeavesWaiting (proxy : TunDnsProxy) (op : TunOp) : Prop :=
  ∀ packet request, op = .inspect packet → Addressed proxy packet request → opens request →
    ∀ (token : Nat) waiting query, proxy.pending[token]? ≠ some (.tcp request.key waiting query)

variable {proxy : TunDnsProxy}

theorem Addressed.unique {packet : Bytes} {request request' : TcpRequest}
    (h : Addressed proxy packet request) (h' : Addressed proxy packet request') : request' = request :=
  (Option.some.inj (h.parse.symm.trans h'.parse)).symm

/-- A packet of the stream ends no connection. -/
theorem not_ends_of_plain {packet : Bytes} {request : TcpRequest} (h : Addressed proxy packet request)
    (hplain : Plain request) (key : TcpKey) : ¬ Ends key proxy (.inspect packet) := by
  rintro ⟨_, request', ⟨⟩, h', hends⟩
  cases h.unique h'
  obtain ⟨-, hrst | hopens | hfin⟩ | ⟨hopens, -⟩ := hends
  · exact hrst hplain.rst
  · exact hplain.syn hopens.2
  · exact hfin hplain.fin
  · exact hplain.syn hopens.2

@[simp] theorem pending_insertFlow (key : TcpKey) (request : TcpRequest) :
    (proxy.insertFlow key request).pending = proxy.pending := by
  unfold TunDnsProxy.insertFlow TunDnsProxy.evictOldest
  split
  · split <;> rfl
  · rfl

theorem mem_insertFlow {key other : TcpKey} {request : TcpRequest}
    (h : other ∈ (proxy.insertFlow key request).tcpFlows) :
    other = key ∨ (other ∈ proxy.tcpFlows ∧ ¬ Evicts proxy key other) := by
  unfold TunDnsProxy.insertFlow at h
  replace h := ExtTreeMap.mem_insert.mp h
  rw [Std.compare_eq_iff_eq] at h
  refine h.imp Eq.symm fun h => ?_
  split at h
  · next hfull =>
    unfold TunDnsProxy.evictOldest at h
    split at h
    · next hempty =>
      refine ⟨h, fun hevicts => ?_⟩
      have := hevicts.2.2
      rw [hempty] at this
      cases this
    · next oldest order hcons =>
      obtain ⟨hne, hmem⟩ := ExtTreeMap.mem_erase.mp h
      refine ⟨hmem, fun hevicts => hne ?_⟩
      have hhead := hevicts.2.2
      rw [hcons, List.head?_cons, Option.some.injEq] at hhead
      rw [hhead]
      exact ReflCmp.compare_self
  · next hroom =>
    refine ⟨h, fun hevicts => hroom ⟨?_, hevicts.2.1⟩⟩
    rw [ExtTreeMap.contains_iff_mem]
    exact hevicts.1

/-- A query that waits behind an operation has been read by it, or was waiting before it. -/
theorem pending_issue {query : PendingQuery} {transport : TunDnsTransport} {source message : Bytes}
    {token : Nat} {waiting : PendingQuery}
    (h : (proxy.issue query transport source message).2.pending[token]? = some waiting) :
    ((waiting = query ∧ message.length ≤ MAX_DNS_MESSAGE) ∧
      ∃ transport' source' message', (proxy.issue query transport source message).1 =
        .ok (.resolve token transport' source' message')) ∨
    ((∀ transport' source' message', (proxy.issue query transport source message).1 ≠
        .ok (.resolve token transport' source' message')) ∧ proxy.pending[token]? = some waiting) := by
  obtain ⟨-, heq⟩ | ⟨-, hlength, next, -, heq⟩ := issue_cases proxy query transport source message
  · rw [heq] at h ⊢
    exact .inr ⟨fun _ _ _ => nofun, h⟩
  · rw [heq] at h ⊢
    replace h : (proxy.pending.insert proxy.nextToken query)[token]? = some waiting := h
    rw [ExtTreeMap.getElem?_insert] at h
    split at h
    · next hsame =>
      rw [← LawfulEqOrd.eq_of_compare hsame]
      exact .inl ⟨⟨(Option.some.inj h).symm, hlength⟩, _, _, _, rfl⟩
    · next hother =>
      refine .inr ⟨fun _ _ _ hissued => hother ?_, h⟩
      injection hissued with hissued
      injection hissued with htoken
      rw [htoken]
      exact ReflCmp.compare_self

theorem flows_issue {query : PendingQuery} {transport : TunDnsTransport} {source message : Bytes} :
    (proxy.issue query transport source message).2.tcpFlows = proxy.tcpFlows := by
  obtain ⟨-, heq⟩ | ⟨-, -, next, -, heq⟩ := issue_cases proxy query transport source message <;> rw [heq]

theorem mem_setFlow {key other : TcpKey} {flow flow' : TcpFlow} (hflow : proxy.tcpFlows[key]? = some flow)
    (h : other ∈ (proxy.setFlow key flow').tcpFlows) : other ∈ proxy.tcpFlows := by
  replace h := ExtTreeMap.mem_insert.mp h
  rw [Std.compare_eq_iff_eq] at h
  refine h.elim (fun heq => heq ▸ ?_) id
  exact ExtTreeMap.mem_iff_isSome_getElem?.mpr (by rw [hflow]; rfl)

theorem mem_removeFlow {key other : TcpKey} (h : other ∈ (proxy.removeFlow key).tcpFlows) :
    key ≠ other ∧ other ∈ proxy.tcpFlows := by
  replace h := ExtTreeMap.mem_erase.mp h
  rwa [Ne, Std.compare_eq_iff_eq] at h

/-- **A connection behind a waiting query.** If the operation opens none, it was there before and the
operation did not end it, unless the query has just been read. -/
theorem waiting_step {op : TunOp} (hleaves : LeavesWaiting proxy op) {token : Nat} {key : TcpKey}
    {request : TcpRequest} {query : Bytes}
    (hwaits : (proxy.step op).pending[token]? = some (.tcp key request query))
    (hkey : key ∈ (proxy.step op).tcpFlows) :
    issues token proxy op = true ∨ (proxy.pending[token]? = some (.tcp key request query) ∧
      key ∈ proxy.tcpFlows ∧ ¬ Ends key proxy op) := by
  cases op with
  | complete completed' response =>
      right
      have hends : ¬ Ends key proxy (.complete completed' response) := by
        rintro ⟨_, _, ⟨⟩, _⟩
      unfold TunDnsProxy.step at hwaits hkey
      dsimp only at hwaits hkey
      have hcompleted := completed proxy completed' response
      generalize proxy.complete completed' response = outcome at hcompleted hwaits hkey
      -- an answer takes its own token from the table, and no other
      have htake : (proxy.take completed').pending[token]? = some (.tcp key request query) →
          proxy.pending[token]? = some (.tcp key request query) := by
        intro hwaits
        replace hwaits : (proxy.pending.erase completed')[token]? = _ := hwaits
        rw [ExtTreeMap.getElem?_erase] at hwaits
        split at hwaits
        · cases hwaits
        · exact hwaits
      cases hcompleted with
      | invalid | unknown => exact ⟨hwaits, hkey, hends⟩
      | udp | dropped => exact ⟨htake hwaits, hkey, hends⟩
      | tcp _ _ hflow => exact ⟨htake hwaits, @mem_setFlow (proxy.take completed') _ _ _ _ hflow hkey, hends⟩
  | inspect packet =>
      unfold TunDnsProxy.step at hwaits hkey
      unfold issues
      have hinspected := inspected proxy packet
      dsimp only at hwaits hkey ⊢
      generalize proxy.inspect packet = outcome at hinspected hwaits hkey ⊢
      cases hinspected with
      | oversized hlong =>
          refine .inr ⟨hwaits, hkey, ?_⟩
          rintro ⟨_, _, ⟨⟩, h, -⟩
          have := h.length
          omega
      | pass hother =>
          refine .inr ⟨hwaits, hkey, ?_⟩
          rintro ⟨_, _, ⟨⟩, h, -⟩
          exact hother _ h
      | udp _ hother =>
          rw [flows_issue] at hkey
          -- the query waits under the token issued now, or it was waiting
          obtain ⟨-, _, _, _, hissued⟩ | ⟨-, hwaits⟩ := pending_issue hwaits
          · rw [hissued]
            exact .inl (decide_eq_true rfl)
          · refine .inr ⟨hwaits, hkey, ?_⟩
            rintro ⟨_, _, ⟨⟩, h, -⟩
            exact hother _ h
      | reset h hrst =>
          obtain ⟨hne, hkey⟩ := mem_removeFlow hkey
          refine .inr ⟨hwaits, hkey, ?_⟩
          rintro ⟨_, _, ⟨⟩, h', ⟨heq, -⟩ | ⟨hopens, -⟩⟩
          · exact hne (h.unique h' ▸ heq)
          · exact hrst (h.unique h' ▸ hopens.1)
      | opened h hopens =>
          rw [pending_insertFlow] at hwaits
          -- a connection under the key of a waiting query is what the hypothesis excludes
          obtain heq | ⟨hkey, hstays⟩ := mem_insertFlow hkey
          · subst heq
            exact absurd hwaits (hleaves _ _ rfl h hopens token _ _)
          · refine .inr ⟨hwaits, hkey, ?_⟩
            rintro ⟨_, _, ⟨⟩, h', ⟨heq, -⟩ | ⟨-, hevicts⟩⟩
            · rw [h.unique h'] at heq
              subst heq
              exact absurd hwaits (hleaves _ _ rfl h hopens token _ _)
            · exact hstays (h.unique h' ▸ hevicts)
      | unknown h hopens hflow =>
          refine .inr ⟨hwaits, hkey, ?_⟩
          rintro ⟨_, _, ⟨⟩, h', ⟨heq, -⟩ | ⟨hopens', -⟩⟩
          · rw [h.unique h'] at heq
            rw [← heq, ExtTreeMap.mem_iff_isSome_getElem?, hflow] at hkey
            cases hkey
          · exact hopens (h.unique h' ▸ hopens')
      | closed h _ hopens =>
          obtain ⟨hne, hkey⟩ := mem_removeFlow hkey
          refine .inr ⟨hwaits, hkey, ?_⟩
          rintro ⟨_, _, ⟨⟩, h', ⟨heq, -⟩ | ⟨hopens', -⟩⟩
          · exact hne (h.unique h' ▸ heq)
          · exact hopens (h.unique h' ▸ hopens')
      | empty h _ hplain | repeated h _ hplain | outOfOrder h _ hplain =>
          exact .inr ⟨hwaits, hkey, not_ends_of_plain h hplain key⟩
      | overflow h _ hnext =>
          exact .inr ⟨hwaits, (mem_removeFlow hkey).2, not_ends_of_plain h hnext.plain key⟩
      | unfinished h hflow hnext =>
          exact .inr ⟨hwaits, mem_setFlow hflow hkey, not_ends_of_plain h hnext.plain key⟩
      | surplus h hflow hnext =>
          exact .inr ⟨hwaits, mem_setFlow hflow (mem_removeFlow hkey).2,
            not_ends_of_plain h hnext.plain key⟩
      | query h hflow hnext =>
          rw [flows_issue] at hkey
          obtain ⟨-, _, _, _, hissued⟩ | ⟨-, hwaits⟩ := pending_issue hwaits
          · rw [hissued]
            exact .inl (decide_eq_true rfl)
          · exact .inr ⟨hwaits, mem_setFlow hflow hkey, not_ends_of_plain h hnext.plain key⟩

/-! ## Runs

Tokens are handed out in order, so a run hands out each of them once and a token stands for one query. What
waits under a token is read back to the packet that asked; whether its connection is still the one that
asked depends on the connections opened since.
-/

/-- **A connection that a waiting query finds is the one that asked.** -/
theorem still_open {start : TunDnsProxy} (hempty : start.pending = ∅) {ops : List TunOp}
    (hleaves : Throughout TunDnsProxy.step LeavesWaiting start ops) {token : Nat} {key : TcpKey}
    {request : TcpRequest} {query : Bytes}
    (hwaits : (start.after ops).pending[token]? = some (.tcp key request query))
    (hkey : key ∈ (start.after ops).tcpFlows) : StillOpen start token key ops := by
  induction ops using List.reverseRecOn with
  | nil =>
      unfold TunDnsProxy.after at hwaits
      rw [exec_nil, hempty, ExtTreeMap.getElem?_empty] at hwaits
      cases hwaits
  | append_singleton ops op ih =>
      obtain ⟨hbefore, hop, -⟩ := throughout_append.mp hleaves
      unfold TunDnsProxy.after at hwaits hkey
      rw [exec_concat] at hwaits hkey
      obtain hissues | ⟨hwaits, hkey, hends⟩ := waiting_step hop hwaits hkey
      · exact since_now hissues
      · exact (ih hbefore hwaits hkey).concat hends

/-- Tokens are positive. -/
def Numbered (proxy : TunDnsProxy) : Prop :=
  0 < proxy.nextToken ∧ ∀ token ∈ proxy.pending, 0 < token

theorem numbered_issue (h : Numbered proxy) (query : PendingQuery) (transport : TunDnsTransport)
    (source message : Bytes) : Numbered (proxy.issue query transport source message).2 := by
  unfold TunDnsProxy.issue
  split
  · exact h
  · refine ⟨?_, fun token htoken => ?_⟩
    · dsimp only
      split <;> omega
    · replace htoken := ExtTreeMap.mem_insert.mp htoken
      rw [Std.compare_eq_iff_eq] at htoken
      exact htoken.elim (fun heq => heq ▸ h.1) (h.2 token)

theorem next_insertFlow (key : TcpKey) (request : TcpRequest) :
    (proxy.insertFlow key request).nextToken = proxy.nextToken := by
  unfold TunDnsProxy.insertFlow TunDnsProxy.evictOldest
  split
  · split <;> rfl
  · rfl

theorem numbered_insertFlow (h : Numbered proxy) (key : TcpKey) (request : TcpRequest) :
    Numbered (proxy.insertFlow key request) := by
  unfold Numbered
  rw [next_insertFlow, pending_insertFlow]
  exact h

theorem numbered_step (h : Numbered proxy) (op : TunOp) : Numbered (proxy.step op) := by
  cases op with
  | complete token response =>
      have htake : Numbered (proxy.take token) :=
        ⟨h.1, fun other hother => h.2 other (ExtTreeMap.mem_of_mem_erase hother)⟩
      unfold TunDnsProxy.step
      dsimp only
      have hcompleted := completed proxy token response
      generalize proxy.complete token response = outcome at hcompleted
      cases hcompleted with
      | invalid | unknown => exact h
      | udp | dropped | tcp => exact htake
  | inspect packet =>
      unfold TunDnsProxy.step
      dsimp only
      have hinspected := inspected proxy packet
      generalize proxy.inspect packet = outcome at hinspected
      cases hinspected with
      | opened => exact numbered_insertFlow h ..
      | udp => exact numbered_issue h ..
      | query => exact @numbered_issue (proxy.setFlow _ _) h _ _ _ _
      | _ => exact h

theorem pending_inspect {packet : Bytes} {token : Nat} {waiting : PendingQuery}
    (h : (proxy.inspect packet).2.pending[token]? = some waiting) :
    issues token proxy (.inspect packet) = true ∨ proxy.pending[token]? = some waiting := by
  unfold issues
  dsimp only
  have hinspected := inspected proxy packet
  generalize proxy.inspect packet = outcome at hinspected h ⊢
  cases hinspected with
  | udp | query =>
      obtain ⟨-, _, _, _, hissued⟩ | ⟨-, hwaits⟩ := pending_issue h
      · rw [hissued]
        exact .inl (decide_eq_true rfl)
      · exact .inr hwaits
  | opened =>
      rw [pending_insertFlow] at h
      exact .inr h
  | _ => exact .inr h

/-- What one operation adds to the queries of a token. -/
theorem completes_step (proxy : TunDnsProxy) (op : TunOp) (token : Nat) :
    (if completes token proxy op then 1 else 0) +
        (if (proxy.step op).pending.contains token then 1 else 0) ≤
      (if issues token proxy op then 1 else 0) + if proxy.pending.contains token then 1 else 0 := by
  cases op with
  | inspect packet =>
      have hcontains : (proxy.step (.inspect packet)).pending.contains token = true →
          issues token proxy (.inspect packet) = true ∨ proxy.pending.contains token = true := by
        intro h
        rw [ExtTreeMap.contains_eq_isSome_getElem?, Option.isSome_iff_exists] at h
        obtain ⟨waiting, hwaits⟩ := h
        refine (pending_inspect hwaits).imp_right fun hbefore => ?_
        rw [ExtTreeMap.contains_eq_isSome_getElem?, hbefore]
        rfl
      have hnone : completes token proxy (.inspect packet) = false := rfl
      rw [hnone, if_neg Bool.false_ne_true, Nat.zero_add]
      by_cases hafter : (proxy.step (.inspect packet)).pending.contains token = true
      · rw [if_pos hafter]
        obtain hissues | hbefore := hcontains hafter
        · rw [if_pos hissues]
          exact Nat.le_add_right 1 _
        · rw [if_pos hbefore]
          exact Nat.le_add_left 1 _
      · rw [if_neg hafter]
        exact Nat.zero_le _
  | complete completed' response =>
      have hnone : issues token proxy (.complete completed' response) = false := rfl
      rw [hnone, if_neg Bool.false_ne_true, Nat.zero_add]
      generalize hnext : proxy.step (.complete completed' response) = next
      have hcompletes : completes token proxy (.complete completed' response) = (completed' = token &&
        !(completed' = 0 || MAX_DNS_MESSAGE < response.length) && proxy.pending.contains completed') := rfl
      rw [hcompletes]
      -- a query that is taken was pending, and is not any more
      have htake : (if (completed' = token && !(completed' = 0 || MAX_DNS_MESSAGE < response.length)
            && proxy.pending.contains completed') = true then 1 else 0) +
          (if (proxy.take completed').pending.contains token = true then 1 else 0) ≤
          if proxy.pending.contains token = true then 1 else 0 := by
        have hcontains : (proxy.take completed').pending.contains token =
            (!compare completed' token == .eq && proxy.pending.contains token) :=
          ExtTreeMap.contains_erase
        rw [hcontains]
        by_cases heq : completed' = token
        · subst heq
          rw [compare_self]
          cases hpending : proxy.pending.contains completed' <;> simp
          split <;> omega
        · have hne : compare completed' token ≠ .eq := fun h => heq (LawfulEqOrd.eq_of_compare h)
          simp [heq, hne]
      have hcompleted := completed proxy completed' response
      replace hnext : (proxy.complete completed' response).2 = next := hnext
      generalize proxy.complete completed' response = outcome at hcompleted hnext
      subst hnext
      cases hcompleted with
      | invalid h =>
          have hbad : (decide (completed' = 0) || decide (MAX_DNS_MESSAGE < response.length)) = true := by
            simpa using h
          rw [hbad]
          simp
      | unknown hquery =>
          have hmissing : proxy.pending.contains completed' = false := by
            rw [ExtTreeMap.contains_eq_isSome_getElem?, hquery]
            rfl
          rw [hmissing]
          simp
      | udp | dropped | tcp => exact htake

theorem tally_completes (start : TunDnsProxy) (ops : List TunOp) (token : Nat) :
    tally TunDnsProxy.step (completes token) start ops +
        (if (start.after ops).pending.contains token then 1 else 0) ≤
      tally TunDnsProxy.step (issues token) start ops +
        if start.pending.contains token then 1 else 0 := by
  induction ops generalizing start with
  | nil => simp [tally, TunDnsProxy.after]
  | cons op ops ih =>
      have hstep := completes_step start op token
      have hrest := ih (start.step op)
      unfold TunDnsProxy.after at hrest ⊢
      rw [tally, tally, exec_cons]
      omega

/-- The operation hands out some token. -/
def asks (proxy : TunDnsProxy) : TunOp → Bool
  | .inspect packet =>
    match (proxy.inspect packet).1 with
    | .ok (.resolve ..) => true
    | _ => false
  | .complete .. => false

/-- The next token behind an operation with this outcome. -/
theorem asks_issue {packet : Bytes} {query : PendingQuery} {transport : TunDnsTransport}
    {source message : Bytes} {from' : TunDnsProxy}
    (h : proxy.inspect packet = from'.issue query transport source message)
    (hnext : from'.nextToken = proxy.nextToken) :
    (asks proxy (.inspect packet) = false ∧ (∀ token, issues token proxy (.inspect packet) = false) ∧
      (proxy.inspect packet).2.nextToken = proxy.nextToken) ∨
    (asks proxy (.inspect packet) = true ∧
      (∀ token, issues token proxy (.inspect packet) = decide (proxy.nextToken = token)) ∧
      (proxy.nextToken + 1 < 2 ^ 64 →
        (proxy.inspect packet).2.nextToken = proxy.nextToken + 1)) := by
  unfold asks issues
  dsimp only
  rw [h]
  obtain ⟨-, heq⟩ | ⟨-, -, next, hsucc, heq⟩ := issue_cases from' query transport source message
  · rw [heq]
    exact .inl ⟨rfl, fun _ => rfl, hnext⟩
  · rw [heq]
    rw [hnext] at hsucc ⊢
    exact .inr ⟨rfl, fun _ => rfl, hsucc⟩

/-- Tokens are handed out in order. -/
theorem asks_step (proxy : TunDnsProxy) (op : TunOp) :
    (asks proxy op = false ∧ (∀ token, issues token proxy op = false) ∧
      (proxy.step op).nextToken = proxy.nextToken) ∨
    (asks proxy op = true ∧ (∀ token, issues token proxy op = decide (proxy.nextToken = token)) ∧
      (proxy.nextToken + 1 < 2 ^ 64 → (proxy.step op).nextToken = proxy.nextToken + 1)) := by
  cases op with
  | complete token response =>
      refine .inl ⟨rfl, fun _ => rfl, ?_⟩
      unfold TunDnsProxy.step
      dsimp only
      have hcompleted := completed proxy token response
      generalize proxy.complete token response = outcome at hcompleted
      cases hcompleted with
      | _ => rfl
  | inspect packet =>
      have hinspected := inspected proxy packet
      generalize houtcome : proxy.inspect packet = outcome at hinspected
      have hquiet : (∀ token transport source query, outcome.1 ≠ .ok (.resolve token transport source query)) →
          asks proxy (.inspect packet) = false ∧ ∀ token, issues token proxy (.inspect packet) = false := by
        intro hno
        unfold asks issues
        dsimp only
        rw [houtcome]
        split
        · next heq => exact absurd heq (hno _ _ _ _)
        · exact ⟨rfl, fun _ => rfl⟩
      unfold TunDnsProxy.step
      dsimp only
      cases hinspected with
      | udp => exact asks_issue houtcome rfl
      | query => exact asks_issue houtcome rfl
      | opened =>
          obtain ⟨hasks, hissues⟩ := hquiet (by rintro _ _ _ _ ⟨⟩)
          refine .inl ⟨hasks, hissues, ?_⟩
          rw [houtcome]
          exact next_insertFlow ..
      | _ =>
          obtain ⟨hasks, hissues⟩ := hquiet (by rintro _ _ _ _ ⟨⟩)
          exact .inl ⟨hasks, hissues, by rw [houtcome] <;> rfl⟩

theorem issues_le_one (ops : List TunOp) : ∀ (start : TunDnsProxy) (token : Nat),
    start.nextToken + tally TunDnsProxy.step asks start ops < 2 ^ 64 →
      tally TunDnsProxy.step (issues token) start ops ≤ 1 ∧
      (token < start.nextToken → tally TunDnsProxy.step (issues token) start ops = 0) := by
  induction ops with
  | nil => exact fun start token _ => ⟨Nat.zero_le _, fun _ => rfl⟩
  | cons op ops ih =>
      intro start token h
      rw [tally] at h ⊢
      obtain ⟨hasks, hissues, hnext⟩ | ⟨hasks, hissues, hnext⟩ := asks_step start op
      · rw [hasks] at h
        have hrest := ih (start.step op) token (by rw [hnext]; simpa using h)
        rw [hissues]
        rw [hnext] at hrest
        simpa using hrest
      · rw [hasks, if_pos rfl] at h
        have hsucc := hnext (by omega)
        have hrest := ih (start.step op) token (by rw [hsucc]; omega)
        rw [hissues]
        rw [hsucc] at hrest
        by_cases heq : start.nextToken = token
        · rw [decide_eq_true heq, if_pos rfl, hrest.2 (by omega)]
          exact ⟨by omega, by omega⟩
        · rw [decide_eq_false heq, if_neg Bool.false_ne_true, Nat.zero_add]
          exact ⟨hrest.1, fun hlt => hrest.2 (by omega)⟩

/-! ## The asker

The condition only looks at the SYNs of the run: none comes for a key under which a query still waits. It
is exact, since a SYN under such a key takes the answer over.
-/

theorem mem_insertFlow_self (key : TcpKey) (request : TcpRequest) :
    (proxy.insertFlow key request).tcpFlows[key]? = some (freshFlow key request) :=
  ExtTreeMap.getElem?_insert_self

/-- **A connection opened under the key of a waiting query gets its answer.** -/
theorem reopened_answers {start : TunDnsProxy} {ops : List TunOp} {packet : Bytes} {request : TcpRequest}
    (h : Addressed (start.after ops) packet request) (hopens : opens request) {token : Nat}
    (hpositive : 0 < token) {waiting : TcpRequest} {query : Bytes}
    (hwaits : (start.after ops).pending[token]? = some (.tcp request.key waiting query)) :
    (start.after (ops ++ [.inspect packet])).pending[token]? = some (.tcp request.key waiting query) ∧
      ¬ AnswersAsker start (ops ++ [.inspect packet]) token [] request.key := by
  have hinspect := inspect_opens h hopens
  have hafter : start.after (ops ++ [.inspect packet]) =
      (start.after ops).insertFlow request.key request := by
    unfold TunDnsProxy.after
    rw [exec_concat]
    exact congrArg Prod.snd hinspect
  have hpending : (start.after (ops ++ [.inspect packet])).pending[token]? =
      some (.tcp request.key waiting query) := by
    rw [hafter, pending_insertFlow]
    exact hwaits
  refine ⟨hpending, fun hanswers => ?_⟩
  -- the answer is sent to the new connection
  have hflow : (start.after (ops ++ [.inspect packet])).tcpFlows[request.key]? =
      some (freshFlow request.key request) := by
    rw [hafter]
    exact mem_insertFlow_self ..
  have hok : ∃ packets, ((start.after (ops ++ [.inspect packet])).complete token []).1 = .ok packets := by
    have hvalid : ¬ (token = 0 ∨ MAX_DNS_MESSAGE < ([] : Bytes).length) := by
      rw [not_or]
      exact ⟨by omega, Nat.not_lt_zero _⟩
    unfold TunDnsProxy.complete
    rw [if_neg hvalid]
    simp only [hpending, hflow]
    exact ⟨_, rfl⟩
  -- while the last operation ended the one that asked
  have hends : Ends request.key (start.after ops) (.inspect packet) :=
    ⟨packet, request, rfl, h, .inl ⟨rfl, .inr (.inl hopens)⟩⟩
  obtain ⟨before, op, between, heq, hissues, halong⟩ := hanswers.asker (.inr hok)
  obtain ⟨rfl, rfl, -⟩ | ⟨rest, rfl⟩ := concat_eq_append_cons heq
  · unfold issues at hissues
    dsimp only at hissues
    rw [show (exec TunDnsProxy.step start before).inspect packet = _ from hinspect] at hissues
    cases hissues
  · have hbetween : between = rest ++ [.inspect packet] := by
      have := List.append_cancel_left (heq.symm.trans (List.append_assoc ..))
      exact (List.cons.inj this).2
    exact halong rest _ [] hbetween hends

/-- Without such connections, an answer reaches the asker or nobody. -/
theorem answers_of_leaves {start : TunDnsProxy} (hempty : start.pending = ∅) {ops : List TunOp}
    (hleaves : Throughout TunDnsProxy.step LeavesWaiting start ops) {token : Nat} (response : Bytes)
    {key : TcpKey} {request : TcpRequest} {query : Bytes}
    (hwaits : (start.after ops).pending[token]? = some (.tcp key request query)) :
    AnswersAsker start ops token response key := by
  have hopen : key ∈ (start.after ops).tcpFlows → StillOpen start token key ops :=
    still_open hempty hleaves hwaits
  have hcompleted := completed (start.after ops) token response
  constructor
  · generalize (start.after ops).complete token response = outcome at hcompleted
    rintro (hchanged | ⟨packets, hok⟩)
    · cases hcompleted with
      | tcp _ hquery hflow =>
          cases hwaits.symm.trans hquery
          exact hopen (ExtTreeMap.mem_iff_isSome_getElem?.mpr (by rw [hflow]; rfl))
      | _ => exact absurd rfl hchanged
    · cases hcompleted with
      | tcp _ hquery hflow =>
          cases hwaits.symm.trans hquery
          exact hopen (ExtTreeMap.mem_iff_isSome_getElem?.mpr (by rw [hflow]; rfl))
      | udp _ hquery => cases hwaits.symm.trans hquery
      | _ => cases hok
  · intro hclosed
    generalize (start.after ops).complete token response = outcome at hcompleted
    cases hcompleted with
    | tcp _ hquery hflow =>
        cases hwaits.symm.trans hquery
        exact absurd (hopen (ExtTreeMap.mem_iff_isSome_getElem?.mpr (by rw [hflow]; rfl))) hclosed
    | udp _ hquery => cases hwaits.symm.trans hquery
    | _ => exact ⟨⟨_, rfl⟩, rfl⟩

theorem leaves_of_answers {start : TunDnsProxy} (hnumbered : Numbered start) {ops : List TunOp}
    (hall : ∀ before more, ops = before ++ more → ∀ token response key request query,
      (start.after before).pending[token]? = some (.tcp key request query) →
      AnswersAsker start before token response key) :
    Throughout TunDnsProxy.step LeavesWaiting start ops := by
  induction ops using List.reverseRecOn with
  | nil => trivial
  | append_singleton ops op ih =>
      refine throughout_append.mpr ⟨ih fun before more heq => hall before (more ++ [op])
        (by rw [heq, List.append_assoc]), ?_, trivial⟩
      rintro packet request rfl h hopens token waiting query hwaits
      have hpositive : 0 < token := by
        have hafter : Numbered (start.after ops) :=
          exec_invariant hnumbered (fun _ op h => numbered_step h op) ops
        exact hafter.2 token (ExtTreeMap.mem_iff_isSome_getElem?.mpr
          (by rw [show (start.after ops).pending[token]? = _ from hwaits]; rfl))
      obtain ⟨hstill, hno⟩ := @reopened_answers start ops _ _ h hopens _ hpositive _ _ hwaits
      exact hno (hall _ [] (List.append_nil _).symm token [] _ _ _ hstill)

/-- Every answer to a TCP query reaches the connection that asked, or nobody, in every state of a run,
exactly when no connection of the run is opened under the key of a query that waits. The order lists the
flows, both tables are bounded, and no query is completed twice. -/
theorem answers_reach_asker {servers : List Bytes} {mtu : Nat} {start : TunDnsProxy}
    (hnew : TunDnsProxy.new servers mtu = .ok start) (ops : List TunOp) :
    Tidy (start.after ops) ∧
    (∀ token, tally TunDnsProxy.step (completes token) start ops ≤
      tally TunDnsProxy.step (issues token) start ops) ∧
    (tally TunDnsProxy.step asks start ops < 2 ^ 64 - 1 →
      ∀ token, tally TunDnsProxy.step (completes token) start ops ≤ 1) ∧
    ((∀ before more, ops = before ++ more → ∀ token response key request query,
        (start.after before).pending[token]? = some (.tcp key request query) →
        AnswersAsker start before token response key) ↔
      Throughout TunDnsProxy.step LeavesWaiting start ops) := by
  have htidy := Tidy.new hnew
  have hempty : start.pending = ∅ ∧ start.nextToken = 1 := by
    unfold TunDnsProxy.new at hnew
    split at hnew
    · cases hnew
    · cases hnew
      exact ⟨rfl, rfl⟩
  have hcompletes : ∀ token, tally TunDnsProxy.step (completes token) start ops ≤
      tally TunDnsProxy.step (issues token) start ops := by
    intro token
    have hle := tally_completes start ops token
    rw [hempty.1] at hle
    simp only [ExtTreeMap.contains_empty, Bool.false_eq_true, if_false] at hle
    omega
  refine ⟨htidy.after ops, hcompletes, fun hfew token => ?_, ?_, ?_⟩
  · exact (hcompletes token).trans (issues_le_one ops start token (by rw [hempty.2]; omega)).1
  · refine leaves_of_answers ⟨by rw [hempty.2]; omega, fun token htoken => ?_⟩
    rw [hempty.1] at htoken
    exact absurd htoken ExtTreeMap.not_mem_empty
  · intro hleaves before more heq token response key request query hwaits
    subst heq
    exact answers_of_leaves hempty.1 (throughout_append.mp hleaves).1 response hwaits

/-! ## A repeated SYN

A client asks, opens another connection from the same port before the answer is there, and reads the answer
to its first query on the second connection.
-/

/-- A proxy for one gateway. -/
def gateway : TunDnsProxy where
  servers := [[10, 0, 0, 1]]
  mtu := 1380

theorem new_gateway : TunDnsProxy.new [[10, 0, 0, 1]] 1380 = .ok gateway := by
  unfold TunDnsProxy.new
  rw [if_neg (by decide), List.mergeSort_singleton]
  rfl

/-- A segment of one client for that gateway. -/
def clientSegment (sequence : BitVec 32) (flags : UInt8) (payload : Bytes) : TcpRequest where
  version := 4
  source := [10, 0, 0, 2]
  destination := [10, 0, 0, 1]
  sourcePort := 49152
  destinationPort := 53
  sequence
  flags
  payload

def TcpRequest.packet (request : TcpRequest) : Bytes :=
  [0x45, 0] ++ toBE 2 (40 + request.payload.length) ++ [0, 0, 0, 0, 64, TCP_PROTOCOL, 0, 0]
    ++ request.source ++ request.destination ++ toBE 2 request.sourcePort ++ toBE 2 request.destinationPort
    ++ toBE 4 request.sequence.toNat ++ [0, 0, 0, 0, 0x50, request.flags, 0xff, 0xff, 0, 0, 0, 0]
    ++ request.payload

def smallQuery : Bytes := List.replicate 12 0

/-- The segment that asks. -/
def asking : TcpRequest := clientSegment 101 TCP_ACK ([0, 12] ++ smallQuery)

/-- The client opens a connection and asks. -/
def askingRun : List TunOp :=
  [.inspect (clientSegment 100 TCP_SYN []).packet, .inspect asking.packet]

/-- The client asks and opens another connection from the same port. -/
def reopenedRun : List TunOp := askingRun ++ [.inspect (clientSegment 200 TCP_SYN []).packet]

theorem answers_reach_asker_gateway : Tidy (gateway.after askingRun) ∧
    ∀ token, tally TunDnsProxy.step (completes token) gateway askingRun ≤ 1 := by
  obtain ⟨htidy, -, honce, -⟩ := answers_reach_asker new_gateway askingRun
  exact ⟨htidy, honce (by decide +kernel)⟩

/-- The answer to the first connection's query goes to the second one. -/
theorem reopened_takes_answer :
    (gateway.after reopenedRun).pending[1]? = some (.tcp asking.key asking smallQuery) ∧
    ¬ AnswersAsker gateway reopenedRun 1 [] asking.key := by
  have hwaits : (gateway.after askingRun).pending[1]? = some (.tcp asking.key asking smallQuery) := by
    decide +kernel
  have haddressed : Addressed (gateway.after askingRun) (clientSegment 200 TCP_SYN []).packet
      (clientSegment 200 TCP_SYN []) :=
    ⟨by decide +kernel, by decide +kernel, by decide +kernel, by decide +kernel⟩
  exact reopened_answers haddressed (by decide +kernel) Nat.one_pos hwaits

end Peerward.Android
