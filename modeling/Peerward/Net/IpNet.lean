import Peerward.Net.Packet

/-!
# Network prefixes

The part of the `ipnet` crate the repository uses. A prefix keeps the address it was written with,
host bits included; `network` clears them, and membership only looks at what is left.
-/

namespace Peerward.Net

open Std

/-- `Ipv4Net` and `Ipv6Net`, at either width. -/
structure Prefix (width : Nat) where
  addr : BitVec width
  prefixLen : Nat
  /-- `Ipv4Net::new` and `Ipv6Net::new` refuse anything longer. -/
  fits : prefixLen ≤ width
  deriving DecidableEq

namespace Prefix

variable {width : Nat}

/-- `Ipv4Net::new` and `Ipv6Net::new`. -/
def new (addr : BitVec width) (prefixLen : Nat) : Option (Prefix width) :=
  if h : prefixLen ≤ width then some ⟨addr, prefixLen, h⟩ else none

/-- The network mask: `prefixLen` ones, then zeros. -/
def netmask (p : Prefix width) : BitVec width :=
  BitVec.allOnes width <<< (width - p.prefixLen)

def network (p : Prefix width) : BitVec width := p.addr &&& p.netmask

def broadcast (p : Prefix width) : BitVec width := p.addr ||| ~~~p.netmask

/-- `contains`: between the network and the broadcast address. -/
def contains (p : Prefix width) (address : BitVec width) : Bool :=
  p.network ≤ address && address ≤ p.broadcast

/-- The prefix with its host bits cleared. -/
def trunc (p : Prefix width) : Prefix width := { p with addr := p.network }

@[simp] theorem trunc_prefixLen (p : Prefix width) : p.trunc.prefixLen = p.prefixLen := rfl

@[simp] theorem trunc_addr (p : Prefix width) : p.trunc.addr = p.network := rfl

@[simp] theorem trunc_netmask (p : Prefix width) : p.trunc.netmask = p.netmask := rfl

/-- Clearing host bits twice changes nothing. -/
@[simp] theorem trunc_network (p : Prefix width) : p.trunc.network = p.network := by
  simp [network, BitVec.and_assoc]

theorem trunc_broadcast (p : Prefix width) : p.trunc.broadcast = p.broadcast := by
  ext i hi
  simp only [broadcast, trunc_netmask, trunc_addr, network, BitVec.getElem_or, BitVec.getElem_and,
    BitVec.getElem_not]
  cases p.addr[i] <;> cases p.netmask[i] <;> rfl

/-- Membership ignores host bits. -/
@[simp] theorem trunc_contains (p : Prefix width) (address : BitVec width) :
    p.trunc.contains address = p.contains address := by
  simp [contains, trunc_broadcast]

@[simp] theorem trunc_trunc (p : Prefix width) : p.trunc.trunc = p.trunc := by
  simp [trunc, network, netmask, BitVec.and_assoc]

/-- By address, then prefix length. -/
def cmp : Prefix width → Prefix width → Ordering :=
  compareLex (compareOn addr) (compareOn prefixLen)

instance : Ord (Prefix width) := ⟨cmp⟩

instance : TransOrd (Prefix width) := inferInstanceAs (TransCmp (compareLex _ _))

instance : LawfulEqOrd (Prefix width) where
  eq_of_compare := by
    intro a b h
    replace h : cmp a b = .eq := h
    simp only [cmp, compareLex_eq_eq, compareOn] at h
    cases a
    cases b
    congr
    · exact LawfulEqOrd.eq_of_compare h.1
    · exact LawfulEqOrd.eq_of_compare h.2

end Prefix

/-- `ipnet::IpNet`. -/
inductive IpNet where
  | v4 (network : Prefix 32)
  | v6 (network : Prefix 128)
  deriving DecidableEq

namespace IpNet

/-- Membership never crosses address families. -/
def contains : IpNet → IpAddr → Bool
  | .v4 p, .v4 address => p.contains address
  | .v6 p, .v6 address => p.contains address
  | _, _ => false

def prefixLen : IpNet → Nat
  | .v4 p => p.prefixLen
  | .v6 p => p.prefixLen

/-- `IpNet::addr`: the address as written. -/
def addr : IpNet → IpAddr
  | .v4 p => .v4 p.addr
  | .v6 p => .v6 p.addr

/-- `IpNet::network`. -/
def network : IpNet → IpAddr
  | .v4 p => .v4 p.network
  | .v6 p => .v6 p.network

def trunc : IpNet → IpNet
  | .v4 p => .v4 p.trunc
  | .v6 p => .v6 p.trunc

@[simp] theorem trunc_contains (n : IpNet) (address : IpAddr) :
    n.trunc.contains address = n.contains address := by
  cases n <;> cases address <;> simp [trunc, contains]

@[simp] theorem trunc_trunc (n : IpNet) : n.trunc.trunc = n.trunc := by
  cases n <;> simp [trunc]

/-- IPv4 networks sort before IPv6 networks. -/
def cmp : IpNet → IpNet → Ordering
  | .v4 a, .v4 b => compare a b
  | .v4 _, .v6 _ => .lt
  | .v6 _, .v4 _ => .gt
  | .v6 a, .v6 b => compare a b

instance : Ord IpNet := ⟨cmp⟩

instance : TransOrd IpNet where
  eq_swap := by
    rintro (a | a) (b | b)
    · exact @OrientedCmp.eq_swap _ compare _ a b
    · rfl
    · rfl
    · exact @OrientedCmp.eq_swap _ compare _ a b
  isLE_trans := by
    rintro (a | a) (b | b) (c | c) hab hbc
    · exact @TransCmp.isLE_trans _ compare _ a b c hab hbc
    · rfl
    · cases hbc
    · rfl
    · cases hab
    · cases hab
    · cases hbc
    · exact @TransCmp.isLE_trans _ compare _ a b c hab hbc

instance : LawfulEqOrd IpNet where
  eq_of_compare := by
    rintro (a | a) (b | b) h
    · exact congrArg _ (LawfulEqOrd.eq_of_compare h)
    · cases h
    · cases h
    · exact congrArg _ (LawfulEqOrd.eq_of_compare h)

end IpNet

end Peerward.Net
