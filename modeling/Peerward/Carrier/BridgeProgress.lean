import Peerward.Carrier.BridgeRuns

/-!
# When the bridge goes on reading its reliable stream

With two frames on their way to the application the bridge reads nothing from the link, not even the
receipt that its application may be waiting for. It goes on by itself as long as the first of the two
fits into the pipe: `reads_of_run` says which steps keep that so, and `not_always_reads` fills the pipe.
-/

namespace Peerward.Carrier

open Peerward.Lib Peerward.Wire Peerward.Relay
open Peerward.Types (RelayId)

variable {decode : EnvelopeDecoder} {a b b' : Bridge}

/-- A control record that the application wrote lacks its receipt. -/
def Outstanding (decode : EnvelopeDecoder) (b : Bridge) : Prop :=
  b.link.acknowledgedControl < (controlsIn decode b.input.sent).length

/-- After some writes to the application, which does not read meanwhile, the bridge reads its link. -/
def CanRead (b : Bridge) : Prop :=
  ∃ counts : List Nat, (counts.foldl (fun b count => b.deliver count false) b).pending.length < 2

/-- The frame that is being written fits into the pipe. -/
def Fits (b : Bridge) : Prop := ∀ front ∈ b.pending.head?, front.remaining ≤ b.outputFree

instance : Decidable (Fits b) := inferInstanceAs (Decidable (∀ front ∈ b.pending.head?, _))

/-- A running bridge whose application waits for a receipt can read its link. -/
def NeverBlocks (decode : EnvelopeDecoder) (b : Bridge) : Prop :=
  b.progress.ended = false → Outstanding decode b → CanRead b

namespace Bridges

def side (s : Bridges) : Side → Bridge
  | .left => s.left
  | .right => s.right

def other : Side → Side
  | .left => .right
  | .right => .left

/-- An application that waits for its flush does not read. -/
def FlushFirst (s : Bridges) (event : Side × BridgeStep) : Prop :=
  match event.2 with
  | .read _ => (s.side event.1).pollFlush ≠ .pending
  | _ => True

/-- No second frame is taken, and no control written, behind a frame that does not fit. -/
def KeepsReading (decode : EnvelopeDecoder) (s : Bridges) (event : Side × BridgeStep) : Prop :=
  let b := s.side event.1
  match event.2 with
  | .receive _ => b.pending.length = 1 →
      (((s.side (other event.1)).streamed[b.streamRead]?).bind LinkRecord.record?).isSome = true →
      Outstanding decode b → Fits b
  | .write bytes => b.pending.length = 2 → Outstanding decode (b.write bytes) → Fits b
  | _ => True

end Bridges

/-! ## Writing to the application -/

theorem pending_deliver_of_fits (hfits : Fits b) (hlength : b.pending.length = 2) {front : Pending}
    (hfront : b.pending.head? = some front) (hpositive : 0 < front.remaining) :
    (b.deliver front.remaining false).pending.length < 2 := by
  cases hpending : b.pending with
  | nil => rw [hpending] at hlength; cases hlength
  | cons first rest =>
      rw [hpending] at hfront hlength
      cases hfront
      have hsize : min front.remaining (min front.remaining b.outputFree) = front.remaining := by
        have hfront := hfits front (by rw [hpending]; rfl)
        omega
      have hrest : rest.length < 2 := by
        rw [List.length_cons] at hlength
        omega
      unfold Bridge.deliver
      rw [hpending]
      dsimp only
      rw [hsize, if_neg (Nat.pos_iff_ne_zero.mp hpositive),
        if_pos (by unfold Pending.remaining at hpositive ⊢; omega)]
      cases front.receipt with
      | none => exact hrest
      | some sequence => exact hrest

/-- Nothing is written into a full pipe. -/
theorem deliver_of_full (hfull : b.outputFree = 0) (count : Nat) : b.deliver count false = b := by
  unfold Bridge.deliver
  split
  · rfl
  · next front rest hpending =>
      dsimp only
      rw [hfull, Nat.min_zero, Nat.min_zero, if_pos rfl]

theorem not_canRead_of_full (hfull : b.outputFree = 0) (hlength : b.pending.length = 2) :
    ¬ CanRead b := by
  rintro ⟨counts, hcounts⟩
  have hsame : counts.foldl (fun b count => b.deliver count false) b = b := by
    clear hcounts
    induction counts with
    | nil => rfl
    | cons count counts ih => rw [List.foldl_cons, deliver_of_full hfull, ih]
  rw [hsame, hlength] at hcounts
  exact Nat.lt_irrefl _ hcounts

/-! ## What the steps keep

With one frame on its way nothing is blocked. With two, the first has to fit into the pipe when a receipt
is awaited, because the bridge does not read the stream, receipts included, until that frame is out.
-/

/-- At most two frames are on their way, and the first fits when a receipt is awaited behind two. -/
structure Reads (decode : EnvelopeDecoder) (b : Bridge) : Prop where
  pending_le : b.pending.length ≤ 2
  remaining_pos : ∀ front ∈ b.pending, 0 < front.remaining
  fits : Outstanding decode b → b.pending.length = 2 → Fits b

theorem Reads.neverBlocks (h : Reads decode b) : NeverBlocks decode b := by
  intro _ houtstanding
  by_cases htwo : b.pending.length = 2
  · cases hhead : b.pending.head? with
    | none => rw [List.head?_eq_none_iff.mp hhead] at htwo; cases htwo
    | some front =>
        have hpositive := h.remaining_pos front (List.mem_of_mem_head? hhead)
        exact ⟨[front.remaining], pending_deliver_of_fits (h.fits houtstanding htwo) htwo hhead hpositive⟩
  · exact ⟨[], Nat.lt_of_le_of_ne h.pending_le htwo⟩

/-- Steps that leave the frames and the pipe to the application alone. -/
theorem Reads.of_same (h : Reads decode b) (hpending : b'.pending = b.pending)
    (houtput : b.outputFree ≤ b'.outputFree) (houtstanding : Outstanding decode b' → Outstanding decode b) :
    Reads decode b' where
  pending_le := hpending ▸ h.pending_le
  remaining_pos := hpending ▸ h.remaining_pos
  fits := by
    intro hb' htwo front hfront
    rw [hpending] at htwo hfront
    exact Nat.le_trans (h.fits (houtstanding hb') htwo front hfront) houtput

theorem Reads.deliver (h : Reads decode b) (count : Nat) (fails : Bool) :
    Reads decode (b.deliver count fails) := by
  cases hpending : b.pending with
  | nil =>
      have hsame : b.deliver count fails = b := by
        unfold Bridge.deliver
        rw [hpending]
      rw [hsame]
      exact h
  | cons front rest =>
      have hrest : rest.length < 2 := by
        have := h.pending_le
        rw [hpending, List.length_cons] at this
        omega
      have hpassed : ∀ {next : Bridge}, next.pending = rest → Reads decode next := by
        intro next hnext
        have hlength := congrArg List.length hnext
        refine ⟨by omega, fun other hother => h.remaining_pos other ?_, fun _ htwo => by omega⟩
        rw [hpending]
        exact List.mem_cons_of_mem _ (hnext ▸ hother)
      unfold Bridge.deliver
      rw [hpending]
      dsimp only
      generalize hsize : min count (min front.remaining b.outputFree) = size
      split
      · exact h
      split
      · split
        · exact hpassed rfl
        · split <;> exact hpassed rfl
      · next hpart =>
          have hremaining : size ≤ front.remaining := by omega
          have hfree : size ≤ b.outputFree := by omega
          have hpositive := h.remaining_pos front (by rw [hpending]; exact List.mem_cons_self ..)
          unfold Pending.remaining at hremaining hpositive
          refine ⟨?_, fun other hother => ?_, fun houtstanding htwo => ?_⟩
          · rw [List.length_cons]
            exact hrest
          · rcases List.mem_cons.mp hother with rfl | hother
            · unfold Pending.remaining
              dsimp only
              omega
            · exact h.remaining_pos other (by rw [hpending]; exact List.mem_cons_of_mem _ hother)
          · intro other hother
            cases hother
            have hfront := h.fits houtstanding (by rw [hpending]; exact htwo) front (by rw [hpending]; rfl)
            have hwritten : (slice front.bytes front.offset (front.offset + size)).length = size := by
              rw [length_slice]
              omega
            unfold Bridge.outputFree Pending.remaining at *
            dsimp only
            rw [Channel.queue_put, List.length_append, hwritten]
            omega

/-- Steps of the run that do not move frames. -/
structure Still (b b' : Bridge) : Prop where
  pending : b'.pending = b.pending
  output : b'.output = b.output
  sent : b'.input.sent = b.input.sent
  acknowledged : b.link.acknowledgedControl ≤ b'.link.acknowledgedControl

theorem Reads.still (h : Reads decode b) (hstep : Still b b') : Reads decode b' := by
  refine h.of_same hstep.pending (by unfold Bridge.outputFree; rw [hstep.output]) fun houtstanding => ?_
  have hacknowledged := hstep.acknowledged
  unfold Outstanding at houtstanding ⊢
  rw [hstep.sent] at houtstanding
  omega

theorem Still.refl (b : Bridge) : Still b b := ⟨rfl, rfl, rfl, Nat.le_refl _⟩

theorem still_finish (b : Bridge) : Still b b.finish := ⟨rfl, rfl, rfl, Nat.le_refl _⟩

theorem still_takeFrame {fails : Bool} (h : b.takeFrame decode fails = some b') : Still b b' := by
  unfold Bridge.takeFrame at h
  split at h
  · split at h
    · cases h
    · cases h
      exact ⟨rfl, rfl, rfl, Nat.le_refl _⟩
  · split at h
    · next control hdecode =>
        unfold Bridge.forward at h
        split at h
        · cases h
        · split at h
          · cases h
          · cases h
            exact ⟨rfl, rfl, rfl, Nat.le_refl _⟩
        · split at h
          · cases h
          · next link record hsend =>
              obtain ⟨_, _, hsend⟩ := bind_eq_ok.mp hsend
              obtain ⟨_, _, hsend⟩ := bind_eq_ok.mp hsend
              cases hsend
              split at h
              · cases h
              · cases h
                exact ⟨rfl, rfl, rfl, Nat.le_refl _⟩
    · cases h

theorem still_readInput (b : Bridge) (count : Nat) (fails : Bool) :
    Still b (b.readInput decode count fails) := by
  unfold Bridge.readInput
  generalize min count (b.size - b.frame.length) = size
  dsimp only
  split
  · exact .refl b
  split
  · split
    · exact .refl b
    · split <;> exact ⟨rfl, rfl, rfl, Nat.le_refl _⟩
  split
  · cases htake : Bridge.takeFrame decode
        { b with input := b.input.take size, frame := b.frame ++ b.input.queue.take size } fails with
    | none => exact ⟨rfl, rfl, rfl, Nat.le_refl _⟩
    | some next => exact { still_takeFrame htake with }
  · exact ⟨rfl, rfl, rfl, Nat.le_refl _⟩

theorem still_sweep (b : Bridge) (overdue due fails : Bool) : Still b (b.sweep overdue due fails) := by
  have hprobe : ∀ c : Bridge, Still c (c.sendProbe due fails) := by
    intro c
    unfold Bridge.sendProbe
    split
    · split <;> exact ⟨rfl, rfl, rfl, Nat.le_refl _⟩
    · exact .refl c
  unfold Bridge.sweep
  split
  · split
    · exact still_finish b
    · exact { hprobe { b with probe := none, missed := b.missed + 1 } with }
  · exact hprobe b

/-- One more frame, behind one that fits. -/
theorem Reads.push (h : Reads decode b) (hroom : b.pending.length < 2) {control : ControlEnvelope}
    {receipt : Option Nat} (hpending : b'.pending = b.pending ++ [⟨localFrame control, 0, receipt⟩])
    (houtput : b'.output = b.output) (hfits : Outstanding decode b' → b.pending.length = 1 → Fits b) :
    Reads decode b' where
  pending_le := by
    rw [hpending, List.length_append]
    exact hroom
  remaining_pos := by
    intro front hfront
    rw [hpending] at hfront
    rcases List.mem_append.mp hfront with hfront | hfront
    · exact h.remaining_pos front hfront
    · rw [List.mem_singleton.mp hfront]
      exact length_localFrame_pos
  fits := by
    intro houtstanding htwo front hfront
    rw [hpending, List.length_append] at htwo
    have hone : b.pending.length = 1 := Nat.succ.inj htwo
    rw [hpending, List.head?_append_of_ne_nil _ (List.ne_nil_of_length_pos (by omega))] at hfront
    unfold Bridge.outputFree
    rw [houtput]
    exact hfits houtstanding hone front hfront

theorem Reads.receive (h : Reads decode b) (hab : Linked decode a b) (hba : Linked decode b a)
    (hkeeps : b.pending.length = 1 → ((a.streamed[b.streamRead]?).bind LinkRecord.record?).isSome = true →
      Outstanding decode b → Fits b) (fails : Bool) : Reads decode (b.receive decode a fails) := by
  unfold Bridge.receive
  split
  · exact h
  next hroom =>
  cases hnext : a.streamed[b.streamRead]? with
  | none => exact h
  | some record =>
      dsimp only
      rw [unwrap_next hab hba hnext]
      obtain ⟨_, _, _, _, hab⟩ := hab
      obtain ⟨_, _, _, _, hba⟩ := hba
      cases record with
      | record sequence control =>
          obtain ⟨-, -, hcontrol, -⟩ := hab.next_record hnext
          dsimp only [Bridge.handle, Bridge.push]
          rw [hcontrol.encodeLocal_eq]
          exact h.push (Nat.not_le.mp hroom) rfl rfl fun houtstanding hone =>
            hkeeps hone (by rw [hnext]; rfl) houtstanding
      | receipt sequence =>
          obtain ⟨hsequence, -⟩ := hba.next_receipt hnext
          exact h.still ⟨rfl, rfl, rfl, hsequence ▸ Nat.le_succ _⟩
      | heartbeat sequence response =>
          cases response with
          | false =>
              dsimp only [Bridge.handle]
              rw [if_neg Bool.false_ne_true]
              dsimp only
              split <;> exact h.still ⟨rfl, rfl, rfl, Nat.le_refl _⟩
          | true =>
              dsimp only [Bridge.handle]
              rw [if_pos rfl]
              dsimp only
              split <;> exact h.still ⟨rfl, rfl, rfl, Nat.le_refl _⟩

theorem Reads.receiveData (h : Reads decode b) (index : Nat) (fails : Bool) :
    Reads decode (b.receiveData decode a index fails) := by
  unfold Bridge.receiveData
  split
  · exact h
  next hempty =>
  have hnil : b.pending.length = 0 := by simpa using hempty
  split
  · exact h
  split
  · exact h.still (still_finish b)
  · next control _ =>
      split
      · exact h.still (still_finish b)
      · unfold Bridge.push
        cases hencode : encodeLocal (.control control) with
        | error => exact h.still (still_finish b)
        | ok bytes =>
            obtain ⟨-, -, rfl⟩ := encodeLocal_eq_ok.mp hencode
            exact h.push (by omega) rfl rfl fun _ hone => by omega

/-! ## Runs -/

/-- A step that meets the condition keeps the bridge reading. -/
theorem Reads.step (h : Reads decode b) (hab : Linked decode a b) (hba : Linked decode b a)
    (step : BridgeStep)
    (hreceive : ∀ fails, step = .receive fails → b.pending.length = 1 →
      ((a.streamed[b.streamRead]?).bind LinkRecord.record?).isSome = true → Outstanding decode b → Fits b)
    (hwrite : ∀ bytes, step = .write bytes → b.pending.length = 2 →
      Outstanding decode (b.write bytes) → Fits b) : Reads decode (b.step decode a step) := by
  unfold Bridge.step
  split
  · exact h
  cases step with
  | write bytes =>
      dsimp only
      have hsame : (b.write bytes).pending = b.pending ∧ (b.write bytes).output = b.output := by
        unfold Bridge.write
        split <;> exact ⟨rfl, rfl⟩
      refine ⟨hsame.1 ▸ h.pending_le, hsame.1 ▸ h.remaining_pos, fun houtstanding htwo => ?_⟩
      rw [hsame.1] at htwo
      unfold Fits Bridge.outputFree
      rw [hsame.1, hsame.2]
      exact hwrite bytes rfl htwo houtstanding
  | countWritten => exact h.still ⟨rfl, rfl, rfl, Nat.le_refl _⟩
  | read count =>
      dsimp only
      unfold Bridge.read
      split
      · exact h
      · refine h.of_same rfl ?_ id
        unfold Bridge.outputFree
        dsimp only
        rw [Channel.queue_take, List.length_drop]
        omega
  | shutdown =>
      dsimp only
      unfold Bridge.shutdown
      split
      · exact h.still ⟨rfl, rfl, rfl, Nat.le_refl _⟩
      · exact h
  | readInput count fails => exact h.still (still_readInput b count fails)
  | receive fails => exact h.receive hab hba (hreceive fails rfl) fails
  | receiveData index fails => exact h.receiveData index fails
  | deliver count fails => exact h.deliver count fails
  | sweep overdue due fails => exact h.still (still_sweep b overdue due fails)
  | abort => exact h.still (still_finish b)

/-- **The bridge goes on reading its reliable stream** in every run in which no second frame is taken,
and no control written, behind a frame that does not fit into the pipe. -/
theorem reads_of_run {meshId : Bytes} {source dialled : Option RelayId} {events : List (Side × BridgeStep)}
    (h : Along (fun before event => Bridges.KeepsReading decode
      (exec (Bridges.step decode) (.start meshId source dialled) before) event) events) :
    let s := exec (Bridges.step decode) (.start meshId source dialled) events
    NeverBlocks decode s.left ∧ NeverBlocks decode s.right := by
  have hreads : Reads decode (exec (Bridges.step decode) (.start meshId source dialled) events).left ∧
      Reads decode (exec (Bridges.step decode) (.start meshId source dialled) events).right := by
    have hstart : ∀ link : QuicLink, Reads decode { link } := fun link =>
      ⟨Nat.zero_le _, nofun, fun _ htwo => nomatch htwo⟩
    refine along_history
      (I := fun events => Reads decode (exec (Bridges.step decode) (.start meshId source dialled) events).left ∧
        Reads decode (exec (Bridges.step decode) (.start meshId source dialled) events).right)
      ⟨hstart _, hstart _⟩ ?_ h
    rintro before ⟨side, step⟩ hkeeps ⟨hleft, hright⟩
    rw [exec_concat]
    generalize hs : exec (Bridges.step decode) (.start meshId source dialled) before = s at *
    have hreachable : Bridges.Reachable decode s := ⟨meshId, source, dialled, before, hs.symm⟩
    obtain ⟨hlr, hrl⟩ := hreachable.linked
    cases side with
    | left =>
        refine ⟨hleft.step hrl hlr step ?_ ?_, hright⟩
        · rintro fails rfl
          exact hkeeps
        · rintro bytes rfl
          exact hkeeps
    | right =>
        refine ⟨hleft, hright.step hlr hrl step ?_ ?_⟩
        · rintro fails rfl
          exact hkeeps
        · rintro bytes rfl
          exact hkeeps
  exact ⟨hreads.1.neverBlocks, hreads.2.neverBlocks⟩

theorem keepalive_keepsReading : Along (fun before event => Bridges.KeepsReading keepaliveDecoder
    (exec (Bridges.step keepaliveDecoder) (.start (List.replicate 16 1) none none) before) event)
      keepaliveEvents := by
  show Along _ ([] ++ [_] ++ [_] ++ [_] ++ [_] ++ [_] ++ [_])
  refine along_concat.mpr ⟨along_concat.mpr ⟨along_concat.mpr ⟨along_concat.mpr ⟨along_concat.mpr
    ⟨along_concat.mpr ⟨along_nil, ?_⟩, trivial⟩, trivial⟩, ?_⟩, trivial⟩, ?_⟩
  · exact fun htwo => absurd htwo (by decide +kernel)
  · exact fun hone => absurd hone (by decide +kernel)
  · exact fun hone => absurd hone (by decide +kernel)

theorem keepalive_reads :
    let s := exec (Bridges.step keepaliveDecoder) (.start (List.replicate 16 1) none none) keepaliveEvents
    NeverBlocks keepaliveDecoder s.left ∧ NeverBlocks keepaliveDecoder s.right :=
  reads_of_run keepalive_keepsReading

/-! ## A full pipe

Two frames of forty thousand bytes do not fit into a pipe of 64 KiB. The run below takes both, and then its
application writes a control record whose receipt is never read. Each step of it is a lemma, since the
frames are too long to be computed with.
-/

/-- A session frame of forty thousand bytes, from one Relay to another. -/
def bulkFrame : RelayEnvelope where
  major := PROTOCOL_MAJOR
  meshId := List.replicate 16 1
  destinationPeer := List.replicate 16 2
  sourcePeer := List.replicate 16 3
  kind := SESSION
  frame := List.replicate 40000 0

def bulk : ControlEnvelope := { message := some (.relayed bulkFrame) }

def bulkDecoder : EnvelopeDecoder := fun bytes =>
  if bytes = keepalive.encode then some keepalive else if bytes = bulk.encode then some bulk else none

theorem length_bulkFrame : bulkFrame.encode.length = 40060 := by
  have hmesh : (bytesField 2 bulkFrame.meshId).length = 18 := by decide +kernel
  have hdestination : (bytesField 3 bulkFrame.destinationPeer).length = 18 := by decide +kernel
  have hsource : (bytesField 4 bulkFrame.sourcePeer).length = 18 := by decide +kernel
  have hmajor : (uintField 1 bulkFrame.major).length = 2 := by decide +kernel
  have hkind : (enumField 5 SESSION bulkFrame.kind).length = 0 := by decide +kernel
  have hframe : (bytesField 6 bulkFrame.frame).length = 40004 := by
    have hlength : bulkFrame.frame.length = 40000 := List.length_replicate
    have hkey : (fieldKey 6 2).length = 1 := by decide +kernel
    rw [length_bytesField 6 (List.ne_nil_of_length_pos (by omega)), hlength, hkey,
      length_varint_three (by omega) (by omega)]
  unfold RelayEnvelope.encode
  rw [List.length_append, List.length_append, List.length_append, List.length_append, List.length_append,
    hmajor, hmesh, hdestination, hsource, hkind, hframe]

theorem length_bulk : bulk.encode.length = 40065 := by
  show (messageField 24 bulkFrame.encode ++ []).length = _
  have hkey : (fieldKey 24 2).length = 2 := by decide +kernel
  rw [List.append_nil, length_messageField, length_bulkFrame, hkey,
    length_varint_three (by omega) (by omega)]

theorem length_bulk_localFrame : (localFrame bulk).length = 40073 := by
  rw [length_localFrame, length_bulk]

theorem carried_keepalive : Carried bulkDecoder keepalive where
  local_eq := decodeLocal_eq_ok.mpr
    ⟨encodeLocal_eq_ok.mpr ⟨rfl, by decide +kernel, rfl⟩, if_pos rfl⟩
  kind := .inl rfl

theorem carried_bulk : Carried bulkDecoder bulk where
  local_eq := by
    have hne : bulk.encode ≠ keepalive.encode := by
      intro h
      have hlength := congrArg List.length h
      have hsmall : keepalive.encode.length < 40065 := by decide +kernel
      rw [length_bulk] at hlength
      omega
    refine decodeLocal_eq_ok.mpr ⟨encodeLocal_eq_ok.mpr ⟨rfl, ?_, rfl⟩, ?_⟩
    · rw [length_bulk]
      decide
    · exact (if_neg hne).trans (if_pos rfl)
  kind := .inr rfl

def bulkRelay : RelayId := ⟨0x00000000000040008000000000000004#128, Types.random_four⟩

/-- The links of the run below: two Relays. -/
def relayLink (client : Bool) : QuicLink :=
  { meshId := List.replicate 16 1, source := some bulkRelay, client }

/-- A valid session frame of the Mesh goes between Relays. -/
theorem validateData_relayed {link : QuicLink} {frame : RelayEnvelope} (outgoing : Bool)
    (hsource : link.source.isNone = false) (hkind : frame.kind = SESSION) (hmesh : frame.meshId = link.meshId)
    (hvalid : frame.validateForRelay = .ok ()) :
    link.validateData decode { message := some (.relayed frame) } outgoing = .ok () := by
  have hbody : opaqueFrame decode { message := some (.relayed frame) } = .ok (some frame) := by
    exact if_pos hkind
  unfold QuicLink.validateData
  dsimp only
  refine bind_eq_ok.mpr ⟨(), rfl, bind_eq_ok.mpr ⟨some frame, hbody, ?_⟩⟩
  dsimp only
  unfold QuicLink.validateOpaque
  rw [hsource, Bool.false_and]
  refine bind_eq_ok.mpr ⟨(), ?_, ?_⟩
  · rw [if_neg Bool.false_ne_true, hvalid]
    rfl
  · rw [hmesh, hkind]
    exact rejectIf_eq_ok.mpr (by simp)

theorem validateData_bulk (client outgoing : Bool) :
    (relayLink client).validateData bulkDecoder bulk outgoing = .ok () := by
  refine validateData_relayed outgoing rfl rfl rfl ?_
  have hlength : bulkFrame.frame.length = 40000 := List.length_replicate
  have hsome : bulkFrame.frame.isEmpty = false := by
    rw [List.isEmpty_eq_false_iff]
    exact List.ne_nil_of_length_pos (by omega)
  refine bind_eq_ok.mpr ⟨(), rfl, bind_eq_ok.mpr ⟨(), rfl, bind_eq_ok.mpr ⟨(), rfl, ?_⟩⟩⟩
  rw [rejectIf_eq_ok, hsome, hlength]
  rfl

/-- An end with nothing on its way in. -/
structure Idle (b : Bridge) : Prop where
  running : b.progress.ended = false
  opened : b.shut = false
  counted : b.uncounted = 0
  frame : b.frame = []
  size : b.size = 4
  queue : b.input.queue = []
  waiting : b.waiting = []

/-- The record in `frame` is complete, and nothing else has happened at `b'` since `b`. -/
structure Framed (b b' : Bridge) (control : ControlEnvelope) : Prop where
  running : b'.progress.ended = false
  opened : b'.shut = false
  counted : b'.uncounted = 0
  frame : b'.frame = localFrame control
  size : b'.size ≠ 4
  queue : b'.input.queue = []
  waiting : b'.waiting = []
  link : b'.link = b.link
  streamed : b'.streamed = b.streamed
  datagrams : b'.datagrams = b.datagrams

def writeRecord (control : ControlEnvelope) : List BridgeStep :=
  [.write (localFrame control), .countWritten, .readInput PIPE false, .readInput PIPE false]

/-- The prefix of a record that waits in the pipe is read. -/
theorem readInput_of_initial (hwaiting : b.waiting = []) (hframe : b.frame = []) (hsize : b.size = 4)
    (hlong : 4 ≤ b.input.queue.length) (hannounced : 0 < announced b.input.queue)
    (hbound : announced b.input.queue ≤ 65535) :
    b.readInput decode PIPE false =
      { b with
        input := b.input.take 4
        frame := b.input.queue.take 4
        size := announced b.input.queue + 4 } := by
  have hcount : min PIPE (b.size - b.frame.length) = 4 := by
    rw [hframe, hsize]
    rfl
  have hsome : b.input.queue.isEmpty = false := by
    rw [List.isEmpty_eq_false_iff]
    exact List.ne_nil_of_length_pos (by omega)
  have hread : (b.frame ++ b.input.queue.take 4).length = b.size := by
    rw [hframe, hsize, List.nil_append, List.length_take]
    omega
  have hvalid : (decide (ofBE (b.input.queue.take 4) = 0) || decide (65535 < ofBE (b.input.queue.take 4))) =
      false := by
    unfold announced at hannounced hbound
    rw [Bool.or_eq_false_iff, decide_eq_false_iff_not, decide_eq_false_iff_not]
    omega
  unfold Bridge.readInput
  rw [hcount]
  dsimp only
  rw [hwaiting, if_neg (by decide), hsome, if_neg Bool.false_ne_true, if_pos hread]
  unfold Bridge.takeFrame
  dsimp only
  rw [if_pos hsize, hframe, List.nil_append, hvalid, if_neg Bool.false_ne_true]
  rfl

/-- The rest of a record is read. -/
theorem readInput_rest (hwaiting : b.waiting = []) (hqueue : 0 < b.input.queue.length)
    (hrest : b.frame.length + b.input.queue.length = b.size) (hsmall : b.input.queue.length ≤ PIPE) :
    b.readInput decode PIPE false =
      Bridge.orFinish
        { b with
          input := b.input.take b.input.queue.length
          frame := b.frame ++ b.input.queue }
        (Bridge.takeFrame decode
          { b with
            input := b.input.take b.input.queue.length
            frame := b.frame ++ b.input.queue }
          false) := by
  have hcount : min PIPE (b.size - b.frame.length) = b.input.queue.length := by omega
  have hsome : b.input.queue.isEmpty = false := by
    rw [List.isEmpty_eq_false_iff]
    exact List.ne_nil_of_length_pos hqueue
  have hread : (b.frame ++ b.input.queue).length = b.size := by
    rw [List.length_append]
    exact hrest
  unfold Bridge.readInput
  rw [hcount]
  dsimp only
  rw [hwaiting, if_neg (by decide), hsome, if_neg Bool.false_ne_true, List.take_length, if_pos hread]

/-- An idle end takes a record that its application writes. -/
theorem Idle.takes (h : Idle b) {control : ControlEnvelope} (hcontrol : Carried decode control)
    (hsmall : (localFrame control).length ≤ PIPE) :
    ∃ b', Framed b b' control ∧ (writeRecord control).foldl (Bridge.step decode · a) b =
      b'.orFinish (b'.forward decode control false) := by
  have hbound : control.encode.length + 4 ≤ MAX_LOCAL_RECORD :=
    (encodeLocal_eq_ok.mp hcontrol.encodeLocal_eq).2.1
  have hlength : (localFrame control).length = control.encode.length + 8 := length_localFrame
  have hannounced := announced_localFrame hbound
  unfold MAX_LOCAL_RECORD at hbound
  have hfits : (localFrame control).take b.inputFree = localFrame control := by
    refine List.take_of_length_le ?_
    unfold Bridge.inputFree
    rw [h.queue]
    exact hsmall
  -- the application writes the whole record, and counts it
  let written : Bridge :=
    { b with
      input := b.input.put (localFrame control)
      progress := { b.progress with written := b.progress.written + (localFrame control).length } }
  have hwritten : (b.step decode a (.write (localFrame control))).step decode a .countWritten = written := by
    have hopen : (b.writing || b.progress.ended || b.shut) = false := by
      rw [h.running, h.opened, Bridge.writing, h.counted]
      rfl
    have hput : b.step decode a (.write (localFrame control)) =
        { b with
          input := b.input.put (localFrame control)
          uncounted := (localFrame control).length } := by
      unfold Bridge.step
      rw [h.running]
      show b.write (localFrame control) = _
      unfold Bridge.write
      rw [hopen, if_neg Bool.false_ne_true, hfits]
    rw [hput]
    unfold Bridge.step
    rw [h.running]
    show Bridge.countWritten _ = written
    unfold Bridge.countWritten
    rw [← h.counted]
  have hqueue : written.input.queue = localFrame control := by
    show (b.input.put (localFrame control)).queue = _
    rw [Channel.queue_put, h.queue, List.nil_append]
  -- the first read takes the prefix, which announces the rest
  let started : Bridge :=
    { written with
      input := written.input.take 4
      frame := (localFrame control).take 4
      size := (localFrame control).length }
  have hstarted : written.step decode a (.readInput PIPE false) = started := by
    unfold Bridge.step
    rw [show written.progress.ended = false from h.running]
    show written.readInput decode PIPE false = started
    have hwaiting : written.waiting = [] := h.waiting
    have hsize : control.encode.length + 4 + 4 = (localFrame control).length := by omega
    rw [readInput_of_initial hwaiting h.frame h.size (by rw [hqueue]; omega) (by rw [hqueue]; omega)
      (by rw [hqueue]; omega), hqueue, hannounced, hsize]
  have hrest : started.input.queue = (localFrame control).drop 4 := by
    show (written.input.take 4).queue = _
    rw [Channel.queue_take, hqueue]
  -- the second read takes the rest
  let framed : Bridge :=
    { started with
      input := started.input.take started.input.queue.length
      frame := started.frame ++ started.input.queue }
  have hframe : framed.frame = localFrame control := by
    show (localFrame control).take 4 ++ started.input.queue = _
    rw [hrest, List.take_append_drop]
  have hframed : started.step decode a (.readInput PIPE false) =
      framed.orFinish (framed.forward decode control false) := by
    unfold Bridge.step
    rw [show started.progress.ended = false from h.running]
    show started.readInput decode PIPE false = _
    have hinitial : started.frame.length = 4 := by
      show ((localFrame control).take 4).length = 4
      rw [List.length_take]
      omega
    have hwaiting : started.waiting = [] := h.waiting
    have hsize : started.size = (localFrame control).length := rfl
    rw [readInput_rest hwaiting (by rw [hrest, List.length_drop]; omega)
      (by rw [hinitial, hrest, List.length_drop, hsize]; omega) (by rw [hrest, List.length_drop]; omega)]
    have htake : framed.takeFrame decode false = framed.forward decode control false := by
      unfold Bridge.takeFrame
      rw [if_neg (show ¬ (localFrame control).length = 4 by omega), hframe, hcontrol.local_eq]
    exact congrArg framed.orFinish htake
  refine ⟨framed, ⟨h.running, h.opened, h.counted, hframe, ?_, ?_, h.waiting, rfl, rfl, rfl⟩, ?_⟩
  · show (localFrame control).length ≠ 4
    omega
  · show (started.input.take started.input.queue.length).queue = []
    rw [Channel.queue_take, List.drop_length]
  · show (((b.step decode a _).step decode a _).step decode a _).step decode a _ = _
    rw [hwritten, hstarted, hframed]

theorem Idle.takes_data (h : Idle b) {control : ControlEnvelope} (hcontrol : Carried decode control)
    (hdata : isData decode control = true) (hsmall : (localFrame control).length ≤ PIPE)
    (hvalid : b.link.validateData decode control true = .ok ()) :
    ∃ b', Idle b' ∧ (writeRecord control).foldl (Bridge.step decode · a) b = b' ∧ b'.link = b.link ∧
      b'.streamed = b.streamed ∧ b'.datagrams = b.datagrams ++ [control] := by
  obtain ⟨framed, hframed, hrun⟩ := h.takes (a := a) hcontrol hsmall
  obtain ⟨frame, hbody⟩ : ∃ frame, opaqueFrame decode control = .ok (some frame) := by
    unfold isData at hdata
    split at hdata
    · exact ⟨_, ‹_›⟩
    · cases hdata
  have hforward : framed.forward decode control false =
      some (Bridge.enter { framed with datagrams := framed.datagrams ++ [control] } none) := by
    unfold Bridge.forward
    rw [hbody, hframed.link, hvalid]
    rfl
  rw [hforward] at hrun
  refine ⟨Bridge.enter { framed with datagrams := framed.datagrams ++ [control] } none,
    ⟨hframed.running, hframed.opened, hframed.counted, rfl, rfl, hframed.queue, ?_⟩, hrun, hframed.link, hframed.streamed, ?_⟩
  · show (Bridge.settle (framed.waiting ++ [_]) _).1 = []
    rw [hframed.waiting]
    rfl
  · show framed.datagrams ++ [control] = _
    rw [hframed.datagrams]

theorem Idle.takes_control (h : Idle b) {control : ControlEnvelope} (hcontrol : Carried decode control)
    (hkind : isControl decode control = true) (hsmall : (localFrame control).length ≤ PIPE)
    (hroom : b.link.sentControl + 1 < 2 ^ 64) :
    ∃ b', (writeRecord control).foldl (Bridge.step decode · a) b = b' ∧ b'.link.meshId = b.link.meshId ∧
      b'.streamed = b.streamed ++ [.record (b.link.sentControl + 1) control] ∧
      b'.datagrams = b.datagrams := by
  obtain ⟨framed, hframed, hrun⟩ := h.takes (a := a) hcontrol hsmall
  have hbody : opaqueFrame decode control = .ok none := by
    unfold isControl at hkind
    split at hkind
    · assumption
    · cases hkind
  have hmessage := (encodeLocal_eq_ok.mp hcontrol.encodeLocal_eq).1
  have hsend : framed.link.sendControl decode control =
      .ok ({ b.link with sentControl := b.link.sentControl + 1 },
        .record (b.link.sentControl + 1) control) := by
    rw [hframed.link]
    exact bind_eq_ok.mpr ⟨(), validateControl_of_isControl hkind hmessage, bind_eq_ok.mpr
      ⟨(), rejectIf_eq_ok.mpr (decide_eq_false (Nat.not_le.mpr hroom)), rfl⟩⟩
  have hforward : framed.forward decode control false = some (Bridge.enter
      { framed with
        link := { b.link with sentControl := b.link.sentControl + 1 }
        streamed := framed.streamed ++ [.record (b.link.sentControl + 1) control] }
      (some (b.link.sentControl + 1))) := by
    unfold Bridge.forward
    rw [hbody, hsend]
    rfl
  rw [hforward] at hrun
  refine ⟨_, hrun, rfl, ?_, hframed.datagrams⟩
  show framed.streamed ++ _ = _
  rw [hframed.streamed]

/-! The other Relay sends two bulk frames and a keepalive; this one takes them while its application
neither reads nor writes, and then the application writes a control record. -/

def bulkWrites : List BridgeStep := writeRecord bulk ++ writeRecord bulk ++ writeRecord keepalive

def bulkArrivals : List BridgeStep :=
  [.receiveData 0 false, .deliver PIPE false, .receiveData 1 false, .deliver PIPE false, .receive false,
    .write (localFrame keepalive), .countWritten]

def bulkEvents : List (Side × BridgeStep) :=
  bulkWrites.map (Side.right, ·) ++ bulkArrivals.map (Side.left, ·)

theorem exec_right (s : Bridges) (steps : List BridgeStep) :
    exec (Bridges.step decode) s (steps.map (Side.right, ·)) =
      { s with right := steps.foldl (Bridge.step decode · s.left) s.right } := by
  induction steps generalizing s with
  | nil => rfl
  | cons step steps ih =>
      rw [List.map_cons, exec_cons, ih]
      rfl

theorem exec_left (s : Bridges) (steps : List BridgeStep) :
    exec (Bridges.step decode) s (steps.map (Side.left, ·)) =
      { s with left := steps.foldl (Bridge.step decode · s.right) s.left } := by
  induction steps generalizing s with
  | nil => rfl
  | cons step steps ih =>
      rw [List.map_cons, exec_cons, ih]
      rfl

theorem bulkEvents_flushFirst : Along (fun before event => Bridges.FlushFirst
    (exec (Bridges.step bulkDecoder) (.start (List.replicate 16 1) (some bulkRelay) (some bulkRelay)) before)
      event) bulkEvents := by
  intro before event after h
  have hmem : event ∈ bulkEvents := h ▸ List.mem_append_right _ (List.mem_cons_self ..)
  unfold Bridges.FlushFirst
  split
  · next count hread =>
      have hnone : ∀ event ∈ bulkEvents, ∀ count, event.2 ≠ .read count := by
        simp [bulkEvents, bulkWrites, bulkArrivals, writeRecord]
      exact absurd hread (hnone event hmem count)
  · trivial

/-- A datagram that arrives at an end with nothing on its way out. -/
theorem receiveData_empty {index : Nat} {control : ControlEnvelope} (hrun : b.progress.ended = false)
    (hpending : b.pending = []) (hsent : a.datagrams[index]? = some control)
    (hcontrol : Carried decode control) (hvalid : b.link.validateData decode control false = .ok ()) :
    b.step decode a (.receiveData index false) = { b with pending := [⟨localFrame control, 0, none⟩] } := by
  have hok : (false || decide (control.encode ≠ control.encode) ||
      !(b.link.validateData decode control false).isOk) = false := by
    rw [hvalid]
    simp [Except.isOk, Except.toBool]
  unfold Bridge.step
  rw [hrun]
  show b.receiveData decode a index false = _
  unfold Bridge.receiveData
  rw [hpending, hsent]
  dsimp only
  rw [hcontrol.decode_eq]
  dsimp only
  rw [hok, if_neg (by decide), if_neg Bool.false_ne_true]
  unfold Bridge.push
  rw [hcontrol.encodeLocal_eq, hpending]
  rfl

theorem remaining_fresh (bytes : Bytes) (receipt : Option Nat) :
    (⟨bytes, 0, receipt⟩ : Pending).remaining = bytes.length := Nat.sub_zero _

/-- A single frame without a receipt that fits is written as a whole. -/
theorem deliver_whole {front : Pending} (hrun : b.progress.ended = false) (hpending : b.pending = [front])
    (hreceipt : front.receipt = none) (hpositive : 0 < front.remaining)
    (hfits : front.remaining ≤ b.outputFree) : b.step decode a (.deliver PIPE false) =
      { b with
        output := b.output.put (slice front.bytes front.offset (front.offset + front.remaining))
        pending := [] } := by
  have hfree : b.outputFree ≤ PIPE := Nat.sub_le _ _
  have hsize : min PIPE (min front.remaining b.outputFree) = front.remaining := by omega
  unfold Bridge.step
  rw [hrun]
  show b.deliver PIPE false = _
  unfold Bridge.deliver
  rw [hpending]
  dsimp only
  rw [hsize, if_neg (Nat.pos_iff_ne_zero.mp hpositive),
    if_pos (by unfold Pending.remaining at hpositive ⊢; omega), hreceipt]

/-- Of a frame that does not fit, as much is written as the pipe takes. -/
theorem deliver_part {front : Pending} {rest : List Pending} (hrun : b.progress.ended = false)
    (hpending : b.pending = front :: rest) (hpositive : 0 < b.outputFree)
    (hshort : b.outputFree < front.remaining) : b.step decode a (.deliver PIPE false) =
      { b with
        output := b.output.put (slice front.bytes front.offset (front.offset + b.outputFree))
        pending := { front with offset := front.offset + b.outputFree } :: rest } := by
  have hfree : b.outputFree ≤ PIPE := Nat.sub_le _ _
  have hsize : min PIPE (min front.remaining b.outputFree) = b.outputFree := by omega
  unfold Bridge.step
  rw [hrun]
  show b.deliver PIPE false = _
  unfold Bridge.deliver
  rw [hpending]
  dsimp only
  rw [hsize, if_neg (Nat.pos_iff_ne_zero.mp hpositive),
    if_neg (by unfold Pending.remaining at hshort; omega)]

/-- The run of the left end, up to the write of its application. -/
theorem bulk_fills (hmesh : a.link.meshId = List.replicate 16 1) (hdata : a.datagrams = [bulk, bulk])
    (hstreamed : a.streamed = [.record 1 keepalive]) :
    let left := bulkArrivals.foldl (Bridge.step bulkDecoder · a) { link := relayLink true }
    left.progress.ended = false ∧ Outstanding bulkDecoder left ∧ ¬ CanRead left := by
  have hlength := length_bulk_localFrame
  let start : Bridge := { link := relayLink true }
  let first : Bridge := { start with pending := [⟨localFrame bulk, 0, none⟩] }
  have hfirst : start.step bulkDecoder a (.receiveData 0 false) = first :=
    receiveData_empty rfl rfl (by rw [hdata]; rfl) carried_bulk (validateData_bulk true false)
  let whole : Bridge :=
    { start with output := Channel.empty.put (slice (localFrame bulk) 0 (localFrame bulk).length) }
  have hwhole : first.step bulkDecoder a (.deliver PIPE false) = whole := by
    have hremaining : (⟨localFrame bulk, 0, none⟩ : Pending).remaining = (localFrame bulk).length :=
      remaining_fresh _ _
    have hfree : first.outputFree = PIPE := rfl
    rw [deliver_whole rfl rfl rfl (by rw [hremaining]; omega)
      (by rw [hremaining, hfree, hlength]; decide), hremaining]
    show { first with output := _, pending := [] } = whole
    rw [Nat.zero_add]
  have hused : whole.output.queue = localFrame bulk := by
    show (Channel.empty.put _).queue = _
    rw [Channel.queue_put, Channel.queue_empty, List.nil_append, slice, List.drop_zero, Nat.sub_zero,
      List.take_length]
  let second : Bridge := { whole with pending := [⟨localFrame bulk, 0, none⟩] }
  have hsecond : whole.step bulkDecoder a (.receiveData 1 false) = second :=
    receiveData_empty rfl rfl (by rw [hdata]; rfl) carried_bulk (validateData_bulk true false)
  have hfree : second.outputFree = 25463 := by
    show PIPE - whole.output.queue.length = _
    rw [hused, hlength]
    rfl
  let full : Bridge :=
    { second with
      output := second.output.put (slice (localFrame bulk) 0 25463)
      pending := [⟨localFrame bulk, 25463, none⟩] }
  have hfull : second.step bulkDecoder a (.deliver PIPE false) = full := by
    have hremaining : (⟨localFrame bulk, 0, none⟩ : Pending).remaining = (localFrame bulk).length :=
      remaining_fresh _ _
    rw [deliver_part rfl rfl (by rw [hfree]; decide) (by rw [hfree, hremaining, hlength]; decide), hfree]
  let blocked : Bridge :=
    { full with
      link := { relayLink true with receivedControl := 1 }
      streamRead := 1
      pending := [⟨localFrame bulk, 25463, none⟩, ⟨localFrame keepalive, 0, some 1⟩] }
  have hblocked : full.step bulkDecoder a (.receive false) = blocked := by
    show full.receive bulkDecoder a false = blocked
    have hunwrap : full.link.unwrapControl bulkDecoder
        ((LinkRecord.record 1 keepalive).envelope a.link.meshId) =
        .ok ({ relayLink true with receivedControl := 1 }, .control keepalive) := by
      rw [hmesh]
      exact unwrap_record rfl (by decide) carried_keepalive.decode_eq
        (validateControl_of_isControl rfl rfl)
    have hnext : a.streamed[full.streamRead]? = some (.record 1 keepalive) := by
      rw [hstreamed]
      rfl
    unfold Bridge.receive
    rw [if_neg (show ¬ 2 ≤ full.pending.length by decide), hnext]
    dsimp only
    rw [hunwrap]
    dsimp only [Bridge.handle, Bridge.push]
    rw [carried_keepalive.encodeLocal_eq]
    rfl
  let written : Bridge :=
    { blocked with
      input := Channel.empty.put (localFrame keepalive)
      progress := { blocked.progress with written := 0 + (localFrame keepalive).length } }
  have hwritten : (blocked.step bulkDecoder a (.write (localFrame keepalive))).step bulkDecoder a
      .countWritten = written := by
    show (blocked.write (localFrame keepalive)).countWritten = written
    have hfits : (localFrame keepalive).take blocked.inputFree = localFrame keepalive := by
      refine List.take_of_length_le ?_
      show (localFrame keepalive).length ≤ PIPE
      decide +kernel
    unfold Bridge.write
    rw [if_neg (show ¬ (blocked.writing || blocked.progress.ended || blocked.shut) = true by decide), hfits]
    rfl
  have hrun : bulkArrivals.foldl (Bridge.step bulkDecoder · a) start = written := by
    show ((((((start.step bulkDecoder a _).step bulkDecoder a _).step bulkDecoder a _).step
      bulkDecoder a _).step bulkDecoder a _).step bulkDecoder a _).step bulkDecoder a _ = written
    rw [hfirst, hwhole, hsecond, hfull, hblocked, hwritten]
  show (bulkArrivals.foldl (Bridge.step bulkDecoder · a) start).progress.ended = false ∧ _
  rw [hrun]
  refine ⟨rfl, ?_, not_canRead_of_full ?_ rfl⟩
  · show 0 < (controlsIn bulkDecoder (localFrame keepalive)).length
    decide +kernel
  · show PIPE - (second.output.put _).queue.length = 0
    rw [Channel.queue_put, List.length_append, length_slice, hlength]
    show PIPE - (whole.output.queue.length + _) = 0
    rw [hused, hlength]
    decide

/-- Two datagrams fill the pipe of an application that has other things to do; then it writes a control
record, and the receipt stays behind the frame that does not fit. -/
theorem not_always_reads : ¬ ∀ (decode : EnvelopeDecoder) (meshId : Bytes) (source dialled : Option RelayId)
    (events : List (Side × BridgeStep)),
    Along (fun before event => Bridges.FlushFirst
      (exec (Bridges.step decode) (.start meshId source dialled) before) event) events →
    NeverBlocks decode (exec (Bridges.step decode) (.start meshId source dialled) events).left := by
  intro h
  have hleft := h bulkDecoder (List.replicate 16 1) (some bulkRelay) (some bulkRelay) bulkEvents
    bulkEvents_flushFirst
  let right : Bridge := { link := relayLink false }
  have hidle : Idle right := ⟨rfl, rfl, rfl, rfl, rfl, rfl, rfl⟩
  have hsmall : (localFrame bulk).length ≤ PIPE := by
    rw [length_bulk_localFrame]
    decide
  obtain ⟨one, hone, hfirst, hlinkOne, hstreamOne, hdataOne⟩ := hidle.takes_data
    (a := { link := relayLink true }) carried_bulk rfl hsmall (validateData_bulk false true)
  obtain ⟨two, htwo, hsecond, hlinkTwo, hstreamTwo, hdataTwo⟩ := hone.takes_data
    (a := { link := relayLink true }) carried_bulk rfl hsmall (by rw [hlinkOne]; exact validateData_bulk false true)
  obtain ⟨three, hthird, hmesh, hstream, hdata⟩ := htwo.takes_control
    (a := { link := relayLink true }) carried_keepalive rfl (by decide +kernel)
    (by rw [hlinkTwo, hlinkOne]; decide)
  have hwrites : bulkWrites.foldl (Bridge.step bulkDecoder · { link := relayLink true }) right = three := by
    unfold bulkWrites
    rw [List.foldl_append, List.foldl_append, hfirst, hsecond, hthird]
  have hrun : exec (Bridges.step bulkDecoder)
      (.start (List.replicate 16 1) (some bulkRelay) (some bulkRelay)) bulkEvents =
      { left := bulkArrivals.foldl (Bridge.step bulkDecoder · three) { link := relayLink true },
        right := three } := by
    have hstart : Bridges.start (List.replicate 16 1) (some bulkRelay) (some bulkRelay) =
        ⟨{ link := relayLink true }, right⟩ := rfl
    unfold bulkEvents
    rw [hstart, exec_append, exec_right, exec_left]
    dsimp only
    rw [hwrites]
  rw [hrun] at hleft
  obtain ⟨hrunning, houtstanding, hblocked⟩ := bulk_fills (a := three)
    (by rw [hmesh, hlinkTwo, hlinkOne]; rfl) (by rw [hdata, hdataTwo, hdataOne]; rfl)
    (by rw [hstream, hstreamTwo, hstreamOne, hlinkTwo, hlinkOne]; rfl)
  exact hblocked (hleft hrunning houtstanding)

end Peerward.Carrier