import Peerward.Lib.Run
import Peerward.Relay.Protocol

/-!
# Keepalives on a backbone link

Two Relays probe each other over one link. Probes and their echoes are the same message: a Relay takes
a timestamp for an answer when it equals the one outstanding, and sends every other timestamp back.
The lowest bit of a timestamp tells whose probe it is, so nobody takes the other's probe for an answer.

`Link` is the link with both ends: a record in flight carries how often it has been echoed, which no
Relay looks at. A probe becomes one record, every record written is in flight next, and a delivery
takes one record away, so the count of a record is the number of echoes its probe has caused.
-/

namespace Peerward.Relay

open Peerward.Lib

/-! ## Connection health -/

/-- Monotonic keepalive state. -/
structure ConnectionHealth where
  outstanding : Option Nat := none
  missed : Nat := 0
  unhealthyAfter : Nat
  rttMillis : Option Nat := none
  /-- The last 32 answers and misses, oldest first. -/
  samples : List Bool := []
  deriving DecidableEq

namespace ConnectionHealth

/-- Creates a tracker with a nonzero missed-reply threshold. -/
def new (unhealthyAfter : Nat) : Except RelayError ConnectionHealth :=
  if unhealthyAfter = 0 then .error .invalidConfig else .ok { unhealthyAfter }

def recordSample (health : ConnectionHealth) (received : Bool) : ConnectionHealth :=
  let samples := if health.samples.length = 32 then health.samples.tail else health.samples
  { health with samples := samples ++ [received] }

/-- A probe while the one before it is unanswered counts as a miss. -/
def miss (health : ConnectionHealth) : ConnectionHealth :=
  if health.outstanding.isSome then
    { health with missed := min (health.missed + 1) 255 }.recordSample false
  else health

/-- Starts a probe; whether the connection has become unhealthy. -/
def probe (health : ConnectionHealth) (monotonicMillis : Nat) : Bool × ConnectionHealth :=
  let missed := health.miss
  (decide (missed.missed ≥ missed.unhealthyAfter), { missed with outstanding := some monotonicMillis })

/-- `u64::saturating_mul` and `saturating_add` of the moving average. -/
def averageRtt (current sample : Nat) : Nat :=
  min (min (current * 7) (2 ^ 64 - 1) + sample) (2 ^ 64 - 1) / 8

/-- Accepts only the exact echoed monotonic timestamp and records its round trip. -/
def reply (health : ConnectionHealth) (echoed now : Nat) : Bool × ConnectionHealth :=
  if health.outstanding ≠ some echoed then (false, health)
  else
    let sample := now - echoed
    (true, { health with
      outstanding := none
      missed := 0
      rttMillis := some (health.rttMillis.elim sample (averageRtt · sample)) }.recordSample true)

end ConnectionHealth

/-! ## The link

Two drivers and the records in flight between them. A record carries how often it has been echoed, which no
driver looks at.
-/

/-- The two ends, by the order of their Relay ids. -/
inductive Side where
  | low
  | high
  deriving DecidableEq

namespace Side

def other : Side → Side
  | low => high
  | high => low

/-- `u64::from(self.relay_id > remote_relay)`. -/
def parity : Side → Nat
  | low => 0
  | high => 1

/-- `(monotonic_millis() & !1) | parity`. -/
def stamp (side : Side) (millis : Nat) : Nat := millis / 2 * 2 + side.parity

@[simp] theorem stamp_parity (side : Side) (millis : Nat) : side.stamp millis % 2 = side.parity := by
  cases side <;> simp [stamp, parity]

@[simp] theorem other_other (side : Side) : side.other.other = side := by
  cases side <;> rfl

theorem eq_or_eq_other (side side' : Side) : side' = side ∨ side' = side.other := by
  cases side <;> cases side' <;> decide

theorem other_ne (side : Side) : side.other ≠ side := by
  cases side <;> decide

end Side

/-- A keepalive record in flight, and how often it has been echoed. -/
structure Keepalive where
  monotonicTimestamp : Nat
  echoes : Nat := 0
  deriving DecidableEq

structure Link where
  health : Side → ConnectionHealth
  /-- The records on their way to a side, oldest first. -/
  incoming : Side → List Keepalive
  /-- Neither end has given the connection up. -/
  up : Bool

namespace Link

/-- A link both drivers have just started on. -/
def start : Link where
  health := fun _ => { unhealthyAfter := 3 }
  incoming := fun _ => []
  up := true

def setHealth (s : Link) (side : Side) (health : ConnectionHealth) : Link :=
  { s with health := Function.update s.health side health }

/-- One more record on its way to a side. -/
def send (s : Link) (side : Side) (record : Keepalive) : Link :=
  { s with incoming := Function.update s.incoming side (s.incoming side ++ [record]) }

/-- The end of the connection takes the records in flight with it. -/
def drop (s : Link) : Link := { s with incoming := fun _ => [], up := false }

/-- A side has taken the oldest record on its way to it. -/
def take (s : Link) (side : Side) (rest : List Keepalive) : Link :=
  { s with incoming := Function.update s.incoming side rest }

inductive Op where
  /-- A tick of the probe timer at a side. -/
  | probe (side : Side) (millis : Nat)
  /-- The oldest record on its way to a side arrives. -/
  | deliver (side : Side) (now : Nat)

/-- The probe branch of `drive_backbone`. -/
def probe (s : Link) (side : Side) (millis : Nat) : Link :=
  let timestamp := side.stamp millis
  let (unhealthy, health) := (s.health side).probe timestamp
  let s := s.setHealth side health
  if unhealthy then s.drop else s.send side.other { monotonicTimestamp := timestamp }

/-- The keepalive branch of `handle_backbone_record`. -/
def handleKeepalive (s : Link) (side : Side) (record : Keepalive) (now : Nat) : Link :=
  let (answered, health) := (s.health side).reply record.monotonicTimestamp now
  let s := s.setHealth side health
  if answered then s else s.send side.other { record with echoes := record.echoes + 1 }

def deliver (s : Link) (side : Side) (now : Nat) : Link :=
  match s.incoming side with
  | [] => s
  | record :: rest =>
    (s.take side rest).handleKeepalive side record now

def step (s : Link) : Op → Link
  | .probe side millis => if s.up then s.probe side millis else s
  | .deliver side now => s.deliver side now

def inFlight (s : Link) : Nat := (s.incoming .low).length + (s.incoming .high).length

@[simp] theorem setHealth_self (s : Link) (side : Side) (health : ConnectionHealth) :
    (s.setHealth side health).health side = health := Function.update_self ..

@[simp] theorem setHealth_other (s : Link) (side : Side) (health : ConnectionHealth) :
    (s.setHealth side health).health side.other = s.health side.other :=
  Function.update_of_ne side.other_ne ..

@[simp] theorem setHealth_incoming (s : Link) (side dest : Side) (health : ConnectionHealth) :
    (s.setHealth side health).incoming dest = s.incoming dest := rfl

@[simp] theorem send_health (s : Link) (side dest : Side) (record : Keepalive) :
    (s.send dest record).health side = s.health side := rfl

@[simp] theorem take_health (s : Link) (side side' : Side) (rest : List Keepalive) :
    (s.take side rest).health side' = s.health side' := rfl

theorem mem_send {s : Link} {dest dest' : Side} {record record' : Keepalive} :
    record' ∈ (s.send dest record).incoming dest' ↔
      record' ∈ s.incoming dest' ∨ (dest' = dest ∧ record' = record) := by
  by_cases hdest : dest' = dest
  · subst hdest
    simp [send]
  · simp [send, hdest]

theorem mem_take {s : Link} {dest dest' : Side} {record : Keepalive} {first : Keepalive}
    {rest : List Keepalive} (h : s.incoming dest = first :: rest)
    (hmem : record ∈ (s.take dest rest).incoming dest') : record ∈ s.incoming dest' := by
  by_cases hdest : dest' = dest
  · subst hdest
    simp only [take, Function.update_self] at hmem
    rw [h]
    exact List.mem_cons_of_mem first hmem
  · simp only [take, Function.update_of_ne hdest] at hmem
    exact hmem

/-! ## What should hold

A probe causes one echo and the echo none. Said of a state: nothing in flight was echoed twice, there are at
most two records for each probe, and without another probe the link falls silent.
-/

/-- Nothing in flight is the echo of an echo. -/
def EchoedOnce (s : Link) : Prop := ∀ side, ∀ record ∈ s.incoming side, record.echoes ≤ 1

/-- The probe ticks of a run. -/
def probes (ops : List Op) : Nat := ops.countP fun
  | .probe _ _ => true
  | .deliver _ _ => false

/-- A run of deliveries, each of a record that is there. -/
def Deliveries (s : Link) (more : List Op) : Prop :=
  Along (fun before op => ∃ side now, op = .deliver side now ∧
    (exec step s before).incoming side ≠ []) more

/-- Without further probes the link falls silent: there is a bound on the deliveries that are left, and some
deliveries leave nothing in flight. -/
def Drains (s : Link) : Prop :=
  (∃ bound, ∀ more, Deliveries s more → more.length ≤ bound) ∧
    ∃ more, Deliveries s more ∧ (exec step s more).inFlight = 0

/-- Every probe has caused one echo at most, and the link falls silent by itself. -/
def Answered (ops : List Op) : Prop :=
  EchoedOnce (exec step start ops) ∧ (exec step start ops).inFlight ≤ 2 * probes ops ∧
    Drains (exec step start ops)

/-- A tick does not overwrite an outstanding timestamp, unless it gives the connection up. -/
def Spaced (s : Link) : Op → Prop
  | .probe side _ => s.up = true → (s.health side).outstanding = none ∨
      (s.health side).unhealthyAfter ≤ min ((s.health side).missed + 1) 255
  | .deliver _ _ => True

/-- While records are in flight another delivery is possible. -/
theorem exists_delivery {s : Link} (h : s.inFlight ≠ 0) : ∃ side, s.incoming side ≠ [] := by
  by_contra hnone
  push Not at hnone
  exact h (by rw [inFlight, hnone, hnone]; rfl)

/-- A link with a bound on its deliveries has nothing in flight after some of them. -/
theorem exists_silent {s : Link} {bound : Nat} (h : ∀ more, Deliveries s more → more.length ≤ bound) :
    ∃ more, Deliveries s more ∧ (exec step s more).inFlight = 0 := by
  by_contra hnever
  push Not at hnever
  -- Otherwise there are deliveries without end.
  have hlong : ∀ n, ∃ more, Deliveries s more ∧ more.length = n := by
    intro n
    induction n with
    | zero => exact ⟨[], along_nil, rfl⟩
    | succ n ih =>
        obtain ⟨more, hmore, rfl⟩ := ih
        obtain ⟨side, hne⟩ := exists_delivery (hnever more hmore)
        exact ⟨more ++ [.deliver side 0], along_concat.mpr ⟨hmore, side, 0, rfl, hne⟩,
          List.length_append⟩
  obtain ⟨more, hmore, hlength⟩ := hlong (bound + 1)
  have hle := h more hmore
  omega

/-! ## The invariant

A timestamp's low bit says whose probe it is. As long as no outstanding timestamp is overwritten, a record
that comes back to its owner is the outstanding one and ends there.
-/

/-- The record belongs to a probe of this side. -/
def ownedBy (side : Side) (record : Keepalive) : Bool :=
  record.monotonicTimestamp % 2 = side.parity

/-- The records in flight that belong to probes of a side. -/
def owned (s : Link) (side : Side) : Nat :=
  (s.incoming .low).countP (ownedBy side) + (s.incoming .high).countP (ownedBy side)

/-- On a link whose probes are spaced, the one record of a side's outstanding probe is a request on
its way to the other side, or an answer on its way back. -/
structure Orderly (s : Link) : Prop where
  /-- A record goes to its owner as an echo, and to the other side as a probe. -/
  kind : ∀ side, ∀ record ∈ s.incoming side,
    record.echoes = if ownedBy side record then 1 else 0
  mine : ∀ side timestamp, (s.health side).outstanding = some timestamp →
    timestamp % 2 = side.parity
  awaited : ∀ side dest, ∀ record ∈ s.incoming dest, ownedBy side record = true →
    (s.health side).outstanding = some record.monotonicTimestamp
  single : ∀ side, s.owned side ≤ 1

theorem start_orderly : Orderly start := by
  refine ⟨?_, ?_, ?_, ?_⟩
  · intro side record hmem
    cases hmem
  · intro side timestamp h
    cases h
  · intro side dest record hmem
    cases hmem
  · intro side
    exact Nat.zero_le 1

variable {s : Link} {side : Side} {record : Keepalive} {rest : List Keepalive}

theorem ownedBy_other (record : Keepalive) : ownedBy side.other record = !ownedBy side record := by
  unfold ownedBy
  rcases Nat.mod_two_eq_zero_or_one record.monotonicTimestamp with h | h <;>
    (rw [h]; cases side <;> rfl)

/-- What one record counts for a side. -/
def weight (side : Side) (record : Keepalive) : Nat := if ownedBy side record then 1 else 0

theorem owned_send (s : Link) (side dest : Side) (record : Keepalive) :
    (s.send dest record).owned side = s.owned side + weight side record := by
  cases dest <;> simp [owned, send, weight, List.countP_append, List.countP_singleton] <;> omega

variable (side) in
theorem owned_take {dest : Side} (h : s.incoming dest = record :: rest) :
    s.owned side = (s.take dest rest).owned side + weight side record := by
  cases dest <;> simp [owned, take, weight, h, List.countP_cons] <;> omega

/-- Without an outstanding probe nothing of a side is in flight. -/
theorem Orderly.owned_eq_zero (h : Orderly s) (hnone : (s.health side).outstanding = none) :
    s.owned side = 0 := by
  have hcount : ∀ dest, (s.incoming dest).countP (ownedBy side) = 0 := by
    intro dest
    refine List.countP_eq_zero.mpr fun record hmem howned => ?_
    have hsome := h.awaited side dest record hmem howned
    rw [hnone] at hsome
    cases hsome
  rw [owned, hcount, hcount]

theorem drop_orderly (h : ∀ side timestamp, (s.health side).outstanding = some timestamp →
    timestamp % 2 = side.parity) : Orderly s.drop := by
  refine ⟨?_, h, ?_, ?_⟩
  · intro side record hmem
    cases hmem
  · intro side dest record hmem
    cases hmem
  · intro side
    exact Nat.zero_le 1

/-! ### Probes -/

theorem probe_eq (s : Link) (side : Side) (millis : Nat) :
    s.probe side millis =
      if ((s.health side).probe (side.stamp millis)).1 = true then
        (s.setHealth side ((s.health side).probe (side.stamp millis)).2).drop
      else (s.setHealth side ((s.health side).probe (side.stamp millis)).2).send side.other
        { monotonicTimestamp := side.stamp millis } := rfl

theorem probe_outstanding (health : ConnectionHealth) (millis : Nat) :
    (health.probe millis).2.outstanding = some millis := rfl

theorem probe_mine (h : Orderly s) (millis : Nat) :
    ∀ side' timestamp,
      ((s.setHealth side ((s.health side).probe (side.stamp millis)).2).health side').outstanding =
        some timestamp → timestamp % 2 = side'.parity := by
  intro side' timestamp hsome
  rcases Side.eq_or_eq_other side side' with rfl | rfl
  · rw [setHealth_self, probe_outstanding] at hsome
    rw [← Option.some.inj hsome, Side.stamp_parity]
  · rw [setHealth_other] at hsome
    exact h.mine _ _ hsome

/-- A tick that overwrites a timestamp late enough gives the connection up. -/
theorem probe_gives_up {millis : Nat} {health : ConnectionHealth}
    (hsome : health.outstanding ≠ none)
    (h : health.unhealthyAfter ≤ min (health.missed + 1) 255) : (health.probe millis).1 = true := by
  unfold ConnectionHealth.probe ConnectionHealth.miss
  rw [if_pos (Option.isSome_iff_ne_none.mpr hsome)]
  exact decide_eq_true h

/-- The probe of a side that had nothing in flight. -/
theorem sent_orderly (h : Orderly s) (hnone : (s.health side).outstanding = none) (millis : Nat) :
    Orderly ((s.setHealth side ((s.health side).probe (side.stamp millis)).2).send side.other
      { monotonicTimestamp := side.stamp millis }) := by
  have hzero := h.owned_eq_zero hnone
  have hfresh : ownedBy side { monotonicTimestamp := side.stamp millis } = true :=
    decide_eq_true (Side.stamp_parity side millis)
  refine ⟨?_, probe_mine h millis, ?_, ?_⟩
  · intro dest record hmem
    rcases mem_send.mp hmem with hmem | ⟨rfl, rfl⟩
    · exact h.kind _ record hmem
    · rw [ownedBy_other, hfresh]
      rfl
  · intro side' dest record hmem howned
    rcases mem_send.mp hmem with hmem | ⟨-, rfl⟩
    · have hsome := h.awaited side' dest record hmem howned
      rcases Side.eq_or_eq_other side side' with rfl | rfl
      · rw [hnone] at hsome
        cases hsome
      · rw [send_health, setHealth_other]
        exact hsome
    · rcases Side.eq_or_eq_other side side' with rfl | rfl
      · rw [send_health, setHealth_self, probe_outstanding]
      · rw [ownedBy_other, hfresh] at howned
        cases howned
  · intro side'
    rw [owned_send]
    show s.owned side' + _ ≤ 1
    rcases Side.eq_or_eq_other side side' with rfl | rfl
    · rw [hzero, weight, if_pos hfresh]
    · rw [weight, ownedBy_other, hfresh]
      exact h.single _

theorem probe_orderly (h : Orderly s) (millis : Nat)
    (hspaced : (s.health side).outstanding = none ∨
      (s.health side).unhealthyAfter ≤ min ((s.health side).missed + 1) 255) :
    Orderly (s.probe side millis) := by
  rw [probe_eq]
  split
  · exact drop_orderly (probe_mine h millis)
  · rename_i hhealthy
    have hnone : (s.health side).outstanding = none := by
      by_contra hsome
      exact hhealthy (probe_gives_up hsome (hspaced.resolve_left hsome))
    exact sent_orderly h hnone millis

/-! ### Deliveries -/

theorem handleKeepalive_eq (s : Link) (side : Side) (record : Keepalive) (now : Nat) :
    s.handleKeepalive side record now =
      if ((s.health side).reply record.monotonicTimestamp now).1 = true then
        s.setHealth side ((s.health side).reply record.monotonicTimestamp now).2
      else (s.setHealth side ((s.health side).reply record.monotonicTimestamp now).2).send side.other
        { record with echoes := record.echoes + 1 } := rfl

theorem reply_answered {health : ConnectionHealth} {timestamp : Nat} (now : Nat)
    (h : health.outstanding = some timestamp) :
    (health.reply timestamp now).1 = true ∧ (health.reply timestamp now).2.outstanding = none := by
  unfold ConnectionHealth.reply
  rw [if_neg (not_not_intro h)]
  exact ⟨rfl, rfl⟩

theorem reply_unknown {health : ConnectionHealth} {timestamp now : Nat}
    (h : health.outstanding ≠ some timestamp) :
    health.reply timestamp now = (false, health) := by
  unfold ConnectionHealth.reply
  rw [if_pos h]

/-- An answer to the outstanding probe is the end of its record. -/
theorem answer_orderly (h : Orderly s) (hfirst : s.incoming side = record :: rest) (now : Nat)
    (howned : ownedBy side record = true) :
    (s.take side rest).handleKeepalive side record now =
        (s.take side rest).setHealth side
          ((s.health side).reply record.monotonicTimestamp now).2 ∧
      Orderly ((s.take side rest).setHealth side
        ((s.health side).reply record.monotonicTimestamp now).2) := by
  have hawaited := h.awaited side side record (by rw [hfirst]; exact List.mem_cons_self) howned
  obtain ⟨hanswered, hnone⟩ := reply_answered now hawaited
  refine ⟨?_, ?_, ?_, ?_, ?_⟩
  · rw [handleKeepalive_eq, take_health, if_pos hanswered]
  · intro dest record' hmem
    exact h.kind dest record' (mem_take hfirst hmem)
  · intro side' timestamp hsome
    rcases Side.eq_or_eq_other side side' with rfl | rfl
    · rw [setHealth_self, hnone] at hsome
      cases hsome
    · rw [setHealth_other] at hsome
      exact h.mine _ _ hsome
  · intro side' dest record' hmem howned'
    rcases Side.eq_or_eq_other side side' with rfl | rfl
    · -- the record that left was the only one of this side
      have hleft : (s.take side' rest).owned side' = 0 := by
        have hsplit := owned_take side' hfirst
        rw [weight, if_pos howned] at hsplit
        have := h.single side'
        omega
      have hcount : 0 < ((s.take side' rest).incoming dest).countP (ownedBy side') :=
        List.countP_pos_iff.mpr ⟨record', hmem, howned'⟩
      have hle : ((s.take side' rest).incoming dest).countP (ownedBy side') ≤
          (s.take side' rest).owned side' := by
        cases dest
        · exact Nat.le_add_right _ _
        · exact Nat.le_add_left _ _
      omega
    · rw [setHealth_other]
      exact h.awaited _ dest record' (mem_take hfirst hmem) howned'
  · intro side'
    have hsplit := owned_take side' hfirst
    have := h.single side'
    show (s.take side rest).owned side' ≤ 1
    omega

/-- The other side's probe goes back. -/
theorem echo_orderly (h : Orderly s) (hfirst : s.incoming side = record :: rest) (now : Nat)
    (howned : ownedBy side record = false) :
    (s.take side rest).handleKeepalive side record now =
        (s.take side rest).send side.other { record with echoes := 1 } ∧
      record.echoes = 0 ∧
      Orderly ((s.take side rest).send side.other { record with echoes := 1 }) := by
  have hmem : record ∈ s.incoming side := by
    rw [hfirst]
    exact List.mem_cons_self
  have hzero : record.echoes = 0 := by
    rw [h.kind side record hmem, howned]
    rfl
  have hunknown : (s.health side).outstanding ≠ some record.monotonicTimestamp := by
    intro hsome
    exact absurd (decide_eq_true (h.mine side _ hsome)) (Bool.eq_false_iff.mp howned)
  have hback : ∀ side', ownedBy side' { record with echoes := 1 } = ownedBy side' record :=
    fun _ => rfl
  refine ⟨?_, hzero, ?_, h.mine, ?_, ?_⟩
  · rw [handleKeepalive_eq, take_health, reply_unknown hunknown, hzero]
    have hsame : (s.take side rest).setHealth side (s.health side) = s.take side rest := by
      show Link.mk (Function.update s.health side (s.health side)) _ _ = Link.mk s.health _ _
      rw [Function.update_eq_self]
      rfl
    rw [hsame]
    rfl
  · intro dest record' hmem'
    rcases mem_send.mp hmem' with hmem' | ⟨rfl, rfl⟩
    · exact h.kind dest record' (mem_take hfirst hmem')
    · rw [hback, ownedBy_other, howned]
      rfl
  · intro side' dest record' hmem' howned'
    rcases mem_send.mp hmem' with hmem' | ⟨-, rfl⟩
    · exact h.awaited side' dest record' (mem_take hfirst hmem') howned'
    · exact h.awaited side' side record hmem howned'
  · intro side'
    rw [owned_send, weight, hback, ← weight, ← owned_take _ hfirst]
    exact h.single side'

theorem deliver_orderly (h : Orderly s) (now : Nat) : Orderly (s.deliver side now) := by
  unfold deliver
  split
  · exact h
  · rename_i record rest hfirst
    cases howned : ownedBy side record with
    | true =>
        rw [(answer_orderly h hfirst now howned).1]
        exact (answer_orderly h hfirst now howned).2
    | false =>
        rw [(echo_orderly h hfirst now howned).1]
        exact (echo_orderly h hfirst now howned).2.2

theorem step_orderly (h : Orderly s) {op : Op} (hspaced : Spaced s op) : Orderly (s.step op) := by
  cases op with
  | probe side millis =>
      show Orderly (if s.up = true then s.probe side millis else s)
      split
      · rename_i hup
        exact probe_orderly h millis (hspaced hup)
      · exact h
  | deliver side now => exact deliver_orderly h now

/-! ### Counting -/

theorem inFlight_send (s : Link) (dest : Side) (record : Keepalive) :
    (s.send dest record).inFlight = s.inFlight + 1 := by
  cases dest <;> simp [inFlight, send] <;> omega

theorem inFlight_take {dest : Side} (h : s.incoming dest = record :: rest) :
    s.inFlight = (s.take dest rest).inFlight + 1 := by
  cases dest <;> simp [inFlight, take, h] <;> omega

theorem probe_inFlight (s : Link) (side : Side) (millis : Nat) :
    (s.probe side millis).inFlight ≤ s.inFlight + 1 := by
  rw [probe_eq]
  split
  · exact Nat.zero_le _
  · rw [inFlight_send]
    exact Nat.le_refl _

theorem deliver_inFlight (s : Link) (side : Side) (now : Nat) :
    (s.deliver side now).inFlight ≤ s.inFlight := by
  unfold deliver
  split
  · exact Nat.le_refl _
  · rename_i record rest hfirst
    rw [inFlight_take hfirst, handleKeepalive_eq]
    split
    · exact Nat.le_succ _
    · rw [inFlight_send]
      exact Nat.le_refl _

/-- A probe puts one record in flight, a delivery none. -/
theorem inFlight_le_probes (ops : List Op) : (exec step start ops).inFlight ≤ probes ops := by
  apply @exec_history _ _ step start (fun ops s => s.inFlight ≤ probes ops) (Nat.le_refl 0)
  intro ops op ih
  cases op with
  | probe side millis =>
      have hcount : probes (ops ++ [.probe side millis]) = probes ops + 1 := by
        simp [probes, List.countP_append]
      rw [hcount]
      show (if (exec step start ops).up = true then _ else _ : Link).inFlight ≤ _
      split
      · exact Nat.le_trans (probe_inFlight _ side millis) (Nat.succ_le_succ ih)
      · exact Nat.le_succ_of_le ih
  | deliver side now =>
      have hcount : probes (ops ++ [.deliver side now]) = probes ops := by
        simp [probes, List.countP_append]
      rw [hcount]
      exact Nat.le_trans (deliver_inFlight _ side now) ih

/-- A probe has two deliveries ahead of it, an echo one. -/
def work (s : Link) : Nat :=
  ((s.incoming .low).map (2 - ·.echoes)).sum + ((s.incoming .high).map (2 - ·.echoes)).sum

theorem work_send (s : Link) (dest : Side) (record : Keepalive) :
    (s.send dest record).work = s.work + (2 - record.echoes) := by
  cases dest <;> simp [work, send] <;> omega

theorem work_take {dest : Side} (h : s.incoming dest = record :: rest) :
    s.work = (s.take dest rest).work + (2 - record.echoes) := by
  cases dest <;> simp [work, take, h] <;> omega

/-- Every delivery on an orderly link brings the end nearer. -/
theorem deliver_work (h : Orderly s) (hne : s.incoming side ≠ []) (now : Nat) :
    (s.deliver side now).work + 1 ≤ s.work := by
  unfold deliver
  split
  · rename_i hnil
    exact absurd hnil hne
  · rename_i record rest hfirst
    have hwork := work_take hfirst
    cases howned : ownedBy side record with
    | true =>
        have hone : record.echoes = 1 := by
          rw [h.kind side record (by rw [hfirst]; exact List.mem_cons_self), howned]
          rfl
        rw [(answer_orderly h hfirst now howned).1, hwork, hone]
        exact Nat.le_refl _
    | false =>
        obtain ⟨hstep, hzero, -⟩ := echo_orderly h hfirst now howned
        rw [hstep, work_send, hwork, hzero]
        exact Nat.le_refl _

theorem orderly_drains (h : Orderly s) : Drains s := by
  suffices hbound : ∀ more, Deliveries s more → more.length ≤ s.work from
    ⟨⟨s.work, hbound⟩, exists_silent hbound⟩
  intro more hmore
  have hboth : Orderly (exec step s more) ∧ more.length + (exec step s more).work ≤ s.work := by
    refine along_history (I := fun more => Orderly (exec step s more) ∧
      more.length + (exec step s more).work ≤ s.work) ⟨h, by simp⟩ ?_ hmore
    rintro more op ⟨side, now, rfl, hne⟩ ⟨horderly, hle⟩
    rw [exec_concat, List.length_append]
    refine ⟨deliver_orderly horderly now, ?_⟩
    have hless := deliver_work horderly hne now
    show more.length + 1 + ((exec step s more).deliver side now).work ≤ s.work
    omega
  exact Nat.le_trans (Nat.le_add_right _ _) hboth.2

/-! ## The result -/

/-- **Keepalives are answered once.** In every run whose ticks do not overwrite an outstanding
timestamp, every probe causes one echo at most, and the link falls silent without further probes. -/
theorem spaced_probes_are_answered_once (ops : List Op)
    (h : Along (fun before op => Spaced (exec step start before) op) ops) : Answered ops := by
  have horderly : Orderly (exec step start ops) := by
    refine along_history (I := fun ops => Orderly (exec step start ops)) start_orderly ?_ h
    intro before op hspaced ih
    rw [exec_concat]
    exact step_orderly ih hspaced
  refine ⟨fun side record hmem => ?_, ?_, orderly_drains horderly⟩
  · rw [horderly.kind side record hmem]
    split <;> decide
  · have := inFlight_le_probes ops
    omega

/-- Two probes, the second one after the answer to the first. -/
theorem two_probes_are_answered_once :
    Answered [.probe .high 15000, .deliver .low 15010, .deliver .high 15020, .probe .high 30000,
      .deliver .low 30010, .deliver .high 30020] := by
  apply spaced_probes_are_answered_once
  exact along_iff_throughout.mpr
    ⟨fun _ => .inl rfl, trivial, trivial, fun _ => .inl rfl, trivial, trivial, trivial⟩

/-- The answer to a first probe arrives after the second probe has gone out. -/
def lateAnswer : List Op :=
  [.probe .high 15000, .deliver .low 15010, .probe .high 30000, .deliver .high 30010]

/-- The late answer goes out again as an echo of an echo. -/
theorem late_answer_is_echoed_again : ¬ Answered lateAnswer := by
  intro h
  have hmem : (exec step start lateAnswer).incoming .low =
      [{ monotonicTimestamp := 30001 }, { monotonicTimestamp := 15001, echoes := 2 }] := by
    decide +kernel
  have hle := h.1 .low { monotonicTimestamp := 15001, echoes := 2 } (by rw [hmem]; decide)
  exact absurd hle (by decide)

end Link

end Peerward.Relay
