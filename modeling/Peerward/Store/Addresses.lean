import Peerward.Lib.Cycle
import Peerward.Net.IpNet
import Peerward.Store.Credentials

/-!
# Address allocation

`allocate_address` walks the usable hosts of a mesh network from the stored cursor on, and comes back to
the first host behind the last. The rows it reads are locked or read by the same transaction; each
lookup reads the database's clock anew, which is a parameter.
-/

namespace Peerward.Store

open Std Peerward.Lib Peerward.Net
open Peerward.Types (MeshId)

/-- A row of `peer_addresses`, as the allocation reads it. -/
structure HeldAddressRow where
  meshId : MeshId
  address : IpAddr
  state : AddressState
  quarantineUntil : Option Timestamp
  deriving DecidableEq

/-- One family of a mesh: its network, gateway and cursor. -/
structure AddressPool where
  cidr : IpNet
  gateway : IpAddr
  nextAddress : Option IpAddr
  deriving DecidableEq

/-- The address columns of `meshes`. -/
structure MeshAddresses where
  primary : AddressPool
  secondary : AddressPool
  reservedAddresses : List IpAddr
  deriving DecidableEq

def MeshAddresses.pool (row : MeshAddresses) (secondary : Bool) : AddressPool :=
  if secondary then row.secondary else row.primary

/-- The row with another cursor. -/
def MeshAddresses.setNext (row : MeshAddresses) (secondary : Bool) (next : IpAddr) : MeshAddresses :=
  if secondary then { row with secondary := { row.secondary with nextAddress := some next } }
  else { row with primary := { row.primary with nextAddress := some next } }

structure AddressTables where
  meshes : ExtTreeMap MeshId MeshAddresses := ∅
  peerAddresses : List HeldAddressRow := []

/-! ## The walk -/

def incrementIp : IpAddr → Option IpAddr
  | .v4 bits => if bits.toNat + 1 < 2 ^ 32 then some (.v4 (bits + 1)) else none
  | .v6 bits => if bits.toNat + 1 < 2 ^ 128 then some (.v6 (bits + 1)) else none

/-- `IpNet::broadcast`. -/
def broadcast : IpNet → IpAddr
  | .v4 p => .v4 p.broadcast
  | .v6 p => .v6 p.broadcast

def usableHost (network : IpNet) (address : IpAddr) : Bool :=
  network.contains address && address ≠ network.network
    && !(address.isIpv4 && address = broadcast network)

/-- The host after another; the first one after the last. -/
def successor (network : IpNet) (first candidate : IpAddr) : IpAddr :=
  ((incrementIp candidate).filter (usableHost network)).getD first

/-- An address somebody holds, or still has to be quarantined. -/
def AddressTables.held (tables : AddressTables) (meshId : MeshId) (clock : IpAddr → Timestamp)
    (address : IpAddr) : Bool :=
  tables.peerAddresses.any fun row => row.meshId = meshId && row.address = address &&
    (row.state = .active || (row.state = .quarantine &&
      row.quarantineUntil.any fun deadline => decide (clock address < deadline)))

def AddressTables.unavailable (tables : AddressTables) (meshId : MeshId) (row : MeshAddresses)
    (secondary : Bool) (clock : IpAddr → Timestamp) (candidate : IpAddr) : Bool :=
  candidate = (row.pool secondary).gateway || row.reservedAddresses.contains candidate
    || tables.held meshId clock candidate

/-- Where the walk starts. -/
def AddressPool.start (pool : AddressPool) (first : IpAddr) : IpAddr :=
  (pool.nextAddress.filter (usableHost pool.cidr)).getD first

/-- `allocate_address`, with the number of candidates it may try; `none` when they are spent. -/
def allocateAddress (fuel : Nat) (tables : AddressTables) (meshId : MeshId) (secondary : Bool)
    (clock : IpAddr → Timestamp) : Option (Except StoreError IpAddr × AddressTables) :=
  match tables.meshes[meshId]? with
  | none => some (.error .notFound, tables)
  | some row =>
    let pool := row.pool secondary
    match (incrementIp pool.cidr.network).filter (usableHost pool.cidr) with
    | none => some (.error .poolExhausted, tables)
    | some first =>
      let next := successor pool.cidr first
      let start := pool.start first
      let free := fun candidate => !tables.unavailable meshId row secondary clock candidate
      match Cycle.search next free start fuel start with
      | none => none
      | some none => some (.error .poolExhausted, tables)
      | some (some candidate) =>
        some (.ok candidate, { tables with
          meshes := tables.meshes.insert meshId (row.setNext secondary (next candidate)) })

/-! ## The cycle of usable hosts -/

def number : IpAddr → Nat
  | .v4 bits => bits.toNat
  | .v6 bits => bits.toNat

/-- The number of the last usable host. -/
def lastNumber : IpNet → Nat
  | .v4 p => p.broadcast.toNat - 1
  | .v6 p => p.broadcast.toNat

/-- How many usable hosts a network has. -/
def hostCount (network : IpNet) : Nat := lastNumber network - number network.network

/-- The place of a host among the usable ones. -/
def place (network : IpNet) (address : IpAddr) : Nat := number address - (number network.network + 1)

theorem usableHost_v4 {p : Prefix 32} {address : IpAddr} : usableHost (.v4 p) address = true ↔
    ∃ bits, address = .v4 bits ∧ p.network.toNat < bits.toNat ∧ bits.toNat < p.broadcast.toNat := by
  cases address with
  | v4 bits =>
      have hbits : usableHost (.v4 p) (.v4 bits) = true ↔
          p.network.toNat < bits.toNat ∧ bits.toNat < p.broadcast.toNat := by
        simp only [usableHost, IpNet.contains, Prefix.contains, IpNet.network, broadcast, IpAddr.isIpv4,
          Bool.and_eq_true, decide_eq_true_eq, BitVec.le_def, Bool.not_eq_true', Bool.true_and,
          decide_eq_false_iff_not, ne_eq,
          IpAddr.v4.injEq, ← BitVec.toNat_inj]
        omega
      rw [hbits]
      constructor
      · exact fun h => ⟨bits, rfl, h⟩
      · rintro ⟨_, ⟨⟩, h⟩
        exact h
  | v6 bits =>
      constructor
      · exact fun h => absurd h Bool.false_ne_true
      · rintro ⟨_, ⟨⟩, _⟩

theorem usableHost_v6 {p : Prefix 128} {address : IpAddr} : usableHost (.v6 p) address = true ↔
    ∃ bits, address = .v6 bits ∧ p.network.toNat < bits.toNat ∧ bits.toNat ≤ p.broadcast.toNat := by
  cases address with
  | v6 bits =>
      have hbits : usableHost (.v6 p) (.v6 bits) = true ↔
          p.network.toNat < bits.toNat ∧ bits.toNat ≤ p.broadcast.toNat := by
        simp only [usableHost, IpNet.contains, Prefix.contains, IpNet.network, broadcast, IpAddr.isIpv4,
          Bool.and_eq_true, decide_eq_true_eq, BitVec.le_def, Bool.not_eq_true', Bool.false_and,
          and_true, ne_eq,
          IpAddr.v6.injEq, ← BitVec.toNat_inj]
        omega
      rw [hbits]
      constructor
      · exact fun h => ⟨bits, rfl, h⟩
      · rintro ⟨_, ⟨⟩, h⟩
        exact h
  | v4 bits =>
      constructor
      · exact fun h => absurd h Bool.false_ne_true
      · rintro ⟨_, ⟨⟩, _⟩

/-- Usable hosts are those with a number between. -/
theorem number_of_usable {network : IpNet} {address : IpAddr} (h : usableHost network address = true) :
    number network.network < number address ∧ number address ≤ lastNumber network := by
  cases network with
  | v4 p =>
      obtain ⟨bits, rfl, hlow, hhigh⟩ := usableHost_v4.mp h
      exact ⟨hlow, show bits.toNat ≤ p.broadcast.toNat - 1 by omega⟩
  | v6 p =>
      obtain ⟨bits, rfl, hlow, hhigh⟩ := usableHost_v6.mp h
      exact ⟨hlow, hhigh⟩

theorem eq_of_number {network : IpNet} {a b : IpAddr} (ha : usableHost network a = true)
    (hb : usableHost network b = true) (h : number a = number b) : a = b := by
  cases network with
  | v4 p =>
      obtain ⟨bits, rfl, -, -⟩ := usableHost_v4.mp ha
      obtain ⟨other, rfl, -, -⟩ := usableHost_v4.mp hb
      exact congrArg _ (BitVec.eq_of_toNat_eq h)
  | v6 p =>
      obtain ⟨bits, rfl, -, -⟩ := usableHost_v6.mp ha
      obtain ⟨other, rfl, -, -⟩ := usableHost_v6.mp hb
      exact congrArg _ (BitVec.eq_of_toNat_eq h)

theorem toNat_succ {width : Nat} {bits : BitVec width} (h : bits.toNat + 1 < 2 ^ width) :
    (bits + 1).toNat = bits.toNat + 1 := by
  cases width with
  | zero => simp at h
  | succ width =>
      have hone : (1 : BitVec (width + 1)).toNat = 1 := by simp
      rw [BitVec.toNat_add_of_lt (by rw [hone]; exact h), hone]

/-- Inside the network, the host after an address has the number after its own. -/
theorem next_host {network : IpNet} {a : IpAddr} (hfamily : a.isIpv4 = network.network.isIpv4)
    (hlow : number network.network ≤ number a) :
    (number a < lastNumber network ∧ ∃ b, (incrementIp a).filter (usableHost network) = some b ∧
      usableHost network b = true ∧ number b = number a + 1) ∨
    (lastNumber network ≤ number a ∧ (incrementIp a).filter (usableHost network) = none) := by
  cases network with
  | v4 p =>
      cases a with
      | v6 bits => cases hfamily
      | v4 bits =>
          have hbound := p.broadcast.isLt
          replace hlow : p.network.toNat ≤ bits.toNat := hlow
          by_cases hmore : bits.toNat < p.broadcast.toNat - 1
          · have hsucc := @toNat_succ _ bits (by omega)
            have husable : usableHost (.v4 p) (.v4 (bits + 1)) = true :=
              usableHost_v4.mpr ⟨_, rfl, by omega, by omega⟩
            refine .inl ⟨hmore, .v4 (bits + 1), ?_, husable, hsucc⟩
            rw [incrementIp, if_pos (by omega), Option.filter_some, husable]
            rfl
          · refine .inr ⟨show p.broadcast.toNat - 1 ≤ bits.toNat by omega, ?_⟩
            rw [incrementIp]
            split
            · next hfits =>
              have hsucc := toNat_succ hfits
              rw [Option.filter_some, if_neg]
              intro husable
              obtain ⟨_, heq, _, hlt⟩ := usableHost_v4.mp husable
              rw [← IpAddr.v4.inj heq, hsucc] at hlt
              omega
            · rfl
  | v6 p =>
      cases a with
      | v4 bits => cases hfamily
      | v6 bits =>
          have hbound := p.broadcast.isLt
          replace hlow : p.network.toNat ≤ bits.toNat := hlow
          by_cases hmore : bits.toNat < p.broadcast.toNat
          · have hsucc := @toNat_succ _ bits (by omega)
            have husable : usableHost (.v6 p) (.v6 (bits + 1)) = true :=
              usableHost_v6.mpr ⟨_, rfl, by omega, by omega⟩
            refine .inl ⟨hmore, .v6 (bits + 1), ?_, husable, hsucc⟩
            rw [incrementIp, if_pos (by omega), Option.filter_some, husable]
            rfl
          · refine .inr ⟨show p.broadcast.toNat ≤ bits.toNat by omega, ?_⟩
            rw [incrementIp]
            split
            · next hfits =>
              have hsucc := toNat_succ hfits
              rw [Option.filter_some, if_neg]
              intro husable
              obtain ⟨_, heq, _, hle⟩ := usableHost_v6.mp husable
              rw [← IpAddr.v6.inj heq, hsucc] at hle
              omega
            · rfl

theorem family_of_usable {network : IpNet} {a : IpAddr} (h : usableHost network a = true) :
    a.isIpv4 = network.network.isIpv4 := by
  cases network with
  | v4 p =>
      obtain ⟨bits, rfl, -, -⟩ := usableHost_v4.mp h
      rfl
  | v6 p =>
      obtain ⟨bits, rfl, -, -⟩ := usableHost_v6.mp h
      rfl

/-- The first host is the one behind the network address; without one, no host is usable. -/
theorem first_host (network : IpNet) :
    (∃ first, (incrementIp network.network).filter (usableHost network) = some first ∧
      usableHost network first = true ∧ number first = number network.network + 1) ∨
    ((incrementIp network.network).filter (usableHost network) = none ∧
      ∀ a, usableHost network a = false) := by
  obtain ⟨-, first, hfirst, husable, hnumber⟩ | ⟨hlast, hnone⟩ := @next_host network _ rfl (Nat.le_refl _)
  · exact .inl ⟨first, hfirst, husable, hnumber⟩
  · refine .inr ⟨hnone, fun a => ?_⟩
    by_contra husable
    have := number_of_usable (Bool.not_eq_false _ ▸ husable)
    omega

/-- **The usable hosts form one cycle.** -/
theorem cycle_successor {network : IpNet} {first : IpAddr} (hfirst : usableHost network first = true)
    (hnumber : number first = number network.network + 1) :
    Cycle {a | usableHost network a = true} (successor network first) (place network)
      (hostCount network) := by
  have hnext : ∀ a, usableHost network a = true → usableHost network (successor network first a) = true ∧
      number (successor network first a) =
        if number a < lastNumber network then number a + 1 else number first := by
    intro a ha
    obtain ⟨hlow, hhigh⟩ := number_of_usable ha
    unfold successor
    obtain ⟨hmore, b, hb, husable, hsucc⟩ | ⟨hlast, hnone⟩ := next_host (family_of_usable ha) hlow.le
    · rw [hb, Option.getD_some, if_pos hmore]
      exact ⟨husable, hsucc⟩
    · rw [hnone, Option.getD_none, if_neg (Nat.not_lt.mpr hlast)]
      exact ⟨hfirst, rfl⟩
  unfold hostCount place
  refine ⟨fun a ha => ?_, fun a ha b hb h => ?_, fun a ha => (hnext a ha).1, fun a ha => ?_⟩
  · have := number_of_usable ha
    omega
  · have hlow := number_of_usable ha
    have hlow' := number_of_usable hb
    exact eq_of_number ha hb (by omega)
  · have hbounds := number_of_usable ha
    rw [(hnext a ha).2]
    split
    · rw [Nat.mod_eq_of_lt (by omega)]
      omega
    · have hsize : number a - (number network.network + 1) + 1 =
          lastNumber network - number network.network := by omega
      rw [hsize, Nat.mod_self]
      omega

/-! ## Allocation -/

/-- The number of the host the walk starts at. -/
def AddressPool.origin (pool : AddressPool) : Nat :=
  ((pool.nextAddress.filter (usableHost pool.cidr)).map number).getD (number pool.cidr.network + 1)

/-- How many hosts the walk passes before it comes to `address`. -/
def AddressPool.stepsTo (pool : AddressPool) (address : IpAddr) : Nat :=
  (number address + hostCount pool.cidr - pool.origin) % hostCount pool.cidr

/-- An address that may be given to a Peer. -/
structure Available (tables : AddressTables) (meshId : MeshId) (row : MeshAddresses) (secondary : Bool)
    (clock : IpAddr → Timestamp) (address : IpAddr) : Prop where
  inside : (row.pool secondary).cidr.contains address = true
  not_network : address ≠ (row.pool secondary).cidr.network
  not_broadcast : ¬ (address.isIpv4 = true ∧ address = broadcast (row.pool secondary).cidr)
  not_gateway : address ≠ (row.pool secondary).gateway
  not_reserved : address ∉ row.reservedAddresses
  not_held : tables.held meshId clock address = false

/-- What an allocation has to come to. -/
def Allocated (tables : AddressTables) (meshId : MeshId) (secondary : Bool)
    (clock : IpAddr → Timestamp) (outcome : Except StoreError IpAddr × AddressTables) : Prop :=
  match tables.meshes[meshId]? with
  | none => outcome = (.error .notFound, tables)
  | some row =>
    (∃ address next, outcome = (.ok address, { tables with
        meshes := tables.meshes.insert meshId (row.setNext secondary next) }) ∧
      usableHost (row.pool secondary).cidr next = true ∧
      Available tables meshId row secondary clock address ∧
      ∀ other, Available tables meshId row secondary clock other →
        (row.pool secondary).stepsTo address ≤ (row.pool secondary).stepsTo other) ∨
    (outcome = (.error .poolExhausted, tables) ∧
      ∀ address, ¬ Available tables meshId row secondary clock address)

variable {tables : AddressTables} {meshId : MeshId} {row : MeshAddresses} {secondary : Bool}
  {clock : IpAddr → Timestamp}

theorem available_iff {address : IpAddr} : Available tables meshId row secondary clock address ↔
    usableHost (row.pool secondary).cidr address = true ∧
      (!tables.unavailable meshId row secondary clock address) = true := by
  simp only [usableHost, AddressTables.unavailable, Bool.and_eq_true, decide_eq_true_eq,
    Bool.not_eq_true', Bool.or_eq_false_iff, decide_eq_false_iff_not, List.contains_eq_mem,
    Bool.and_eq_false_imp]
  constructor
  · rintro ⟨hinside, hnetwork, hbroadcast, hgateway, hreserved, hheld⟩
    exact ⟨⟨⟨hinside, hnetwork⟩, fun hv4 heq => hbroadcast ⟨hv4, heq⟩⟩, ⟨hgateway, hreserved⟩, hheld⟩
  · rintro ⟨⟨⟨hinside, hnetwork⟩, hbroadcast⟩, ⟨hgateway, hreserved⟩, hheld⟩
    exact ⟨hinside, hnetwork, fun h => hbroadcast h.1 h.2, hgateway, hreserved, hheld⟩

theorem start_spec (pool : AddressPool) {first : IpAddr} (hfirst : usableHost pool.cidr first = true)
    (hnumber : number first = number pool.cidr.network + 1) :
    usableHost pool.cidr (pool.start first) = true ∧ number (pool.start first) = pool.origin := by
  unfold AddressPool.start AddressPool.origin
  cases hcursor : pool.nextAddress.filter (usableHost pool.cidr) with
  | none => exact ⟨hfirst, hnumber⟩
  | some cursor => exact ⟨(Option.filter_eq_some_iff.mp hcursor).2, rfl⟩

/-- Counting from the start of the walk is counting along the cycle. -/
theorem distance_eq_stepsTo (pool : AddressPool) {start address : IpAddr}
    (hstart : usableHost pool.cidr start = true) (horigin : number start = pool.origin)
    (haddress : usableHost pool.cidr address = true) :
    Cycle.distance (place pool.cidr) (hostCount pool.cidr) start address = pool.stepsTo address := by
  have hlow := number_of_usable hstart
  have hlow' := number_of_usable haddress
  unfold Cycle.distance AddressPool.stepsTo place
  rw [← horigin]
  congr 1
  unfold hostCount
  omega

/-- The walk stops within one round, and gives the first address from the cursor on that may be given;
without one, it changes nothing. -/
theorem allocate_address_complete (tables : AddressTables) (meshId : MeshId) (secondary : Bool)
    (clock : IpAddr → Timestamp) : ∃ rounds outcome,
      (∀ fuel, rounds ≤ fuel → allocateAddress fuel tables meshId secondary clock = some outcome) ∧
      Allocated tables meshId secondary clock outcome := by
  unfold allocateAddress Allocated
  cases hrow : tables.meshes[meshId]? with
  | none => exact ⟨0, _, fun _ _ => rfl, rfl⟩
  | some row =>
      dsimp only
      generalize hpool : row.pool secondary = pool
      obtain ⟨first, hfirst, husable, hnumber⟩ | ⟨hnone, hempty⟩ := first_host pool.cidr
      · rw [hfirst]
        dsimp only
        obtain ⟨hstart, horigin⟩ := start_spec pool husable hnumber
        have hcycle := cycle_successor husable hnumber
        obtain ⟨address, haddress, hfound, hfree, hleast⟩ | ⟨hfound, hfree⟩ :=
          @Cycle.search_spec _ _ _ _ _ (fun candidate =>
            !tables.unavailable meshId row secondary clock candidate) _ _ hcycle hstart _ (Nat.le_refl _)
        · refine ⟨hostCount pool.cidr, _, fun fuel hfuel => ?_, .inl ⟨address,
            successor pool.cidr first address, rfl, hcycle.next_mem _ haddress, ?_, ?_⟩⟩
          · rw [Cycle.search_mono hfuel hfound]
          · exact available_iff.mpr ⟨hpool ▸ haddress, hfree⟩
          · intro other hother
            obtain ⟨hinside, hother⟩ := available_iff.mp hother
            rw [hpool] at hinside
            have hle := hleast other hinside hother
            rwa [distance_eq_stepsTo pool hstart horigin haddress,
              distance_eq_stepsTo pool hstart horigin hinside] at hle
        · refine ⟨hostCount pool.cidr, _, fun fuel hfuel => ?_, .inr ⟨rfl, fun address haddress => ?_⟩⟩
          · rw [Cycle.search_mono hfuel hfound]
          · obtain ⟨hinside, hother⟩ := available_iff.mp haddress
            have hnot := hfree address (hpool ▸ hinside)
            rw [hother] at hnot
            cases hnot
      · rw [hnone]
        refine ⟨0, _, fun _ _ => rfl, .inr ⟨rfl, fun address haddress => ?_⟩⟩
        have hinside := (available_iff.mp haddress).1
        rw [hpool, hempty] at hinside
        cases hinside

/-- The cursor of a `/29` is at its last host, which is taken; the first one is the gateway. -/
example :
    let pool : AddressPool := ⟨.v4 ⟨0x0a000000, 29, by decide⟩, .v4 0x0a000001, some (.v4 0x0a000006)⟩
    Cycle.search (successor pool.cidr (.v4 0x0a000001))
      (fun address => !(address = pool.gateway || address = .v4 0x0a000006)) (pool.start (.v4 0x0a000001)) 6
      (pool.start (.v4 0x0a000001)) = some (some (.v4 0x0a000002)) := by
  decide +kernel

end Peerward.Store
