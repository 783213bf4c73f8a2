import Peerward.Lib.Bytes
import Peerward.Lib.Run
import Peerward.Carrier.Retired

/-!
# Bounded ciphertext fragmentation

`split` cuts one ciphertext frame into self-describing fragments and `Reassembler.push` puts them
together again. Ids leave the table of incomplete frames on five paths (completion, expiry, two
kinds of conflict, and a frame that is refused before it enters), and each of them retires the id.

`Instant` is a number of nanoseconds. The atomic counter of a shared `Budget` is part of the state;
what other connections do to it is an operation of its own (`Op.others`).
-/

namespace Peerward.Carrier

open Std Peerward.Lib

def MAX_FRAME : Nat := 65535
def HEADER : Nat := 24
def MAX_FRAGMENTS : Nat := 64
def MAX_INCOMPLETE : Nat := 32
def MAX_BUFFERED : Nat := 256 * 1024
/-- Two seconds. -/
def LIFETIME : Nat := 2000000000
/-- The bytes of PWQ1. -/
def MAGIC : Bytes := [0x50, 0x57, 0x51, 0x31]

/-- The `io::Error`s of this module, by their text. -/
inductive FragmentError where
  /-- "invalid QUIC ciphertext frame" -/
  | invalidFrame
  /-- "QUIC path cannot carry bounded ciphertext fragments" -/
  | unboundedPath
  /-- "invalid QUIC fragment header" -/
  | invalidHeader
  /-- "invalid QUIC fragment geometry" -/
  | invalidGeometry
  /-- "conflicting QUIC fragment geometry" -/
  | conflictingGeometry
  /-- "conflicting duplicate QUIC fragment" -/
  | conflictingDuplicate
  deriving DecidableEq

/-! ## Budgets -/

/-- A counter shared by several connections. -/
structure Budget where
  limit : Nat
  used : Nat
  deriving DecidableEq

/-- Reserves `size`, unless that passes the limit. -/
def Budget.reserve (budget : Budget) (size : Nat) : Option Budget :=
  if budget.used + size ≤ budget.limit then some { budget with used := budget.used + size } else none

/-- `Drop for Reservation`. -/
def Budget.release (budget : Budget) (size : Nat) : Budget :=
  { budget with used := budget.used - size }

/-! ## The wire format -/

structure Header where
  id : Nat
  total : Nat
  stride : Nat
  index : Nat
  count : Nat
  deriving DecidableEq

/-- One fragment, as `split` writes it. -/
def Header.encode (header : Header) (body : Bytes) : Bytes :=
  MAGIC ++ toBE 8 header.id ++ toBE 4 header.total ++ toBE 2 header.stride ++ toBE 2 header.index
    ++ toBE 2 header.count ++ [0, 0] ++ body

/-- The entire fragment count is checked before anything is transmitted. -/
def split (id : UInt64) (frame : Bytes) (datagramLimit : Nat) :
    Except FragmentError (List Bytes) :=
  if id = 0 ∨ frame = [] ∨ frame.length > MAX_FRAME then .error .invalidFrame
  else
    let stride := min (datagramLimit - HEADER) MAX_FRAME
    if stride = 0 ∨ divCeil frame.length stride > MAX_FRAGMENTS then .error .unboundedPath
    else .ok <| (chunks frame stride).mapIdx fun index body =>
      Header.encode
        { id := id.toNat, total := frame.length, stride := stride, index := index
          count := divCeil frame.length stride } body

/-- The fields at their fixed places. -/
def Header.read (bytes : Bytes) : Header where
  id := ofBE (slice bytes 4 12)
  total := ofBE (slice bytes 12 16)
  stride := ofBE (slice bytes 16 18)
  index := ofBE (slice bytes 18 20)
  count := ofBE (slice bytes 20 22)

/-- The geometry check of `Header::parse`, for a body of `size` bytes. -/
def Header.invalid (value : Header) (size : Nat) : Bool :=
  value.id = 0
    || value.total = 0
    || value.total > MAX_FRAME
    || value.stride = 0
    || value.count = 0
    || value.count > MAX_FRAGMENTS
    || value.index ≥ value.count
    || divCeil value.total value.stride ≠ value.count
    || size ≠ min value.stride (value.total - value.index * value.stride)

def Header.parse (bytes : Bytes) : Except FragmentError Header :=
  if bytes.length ≤ HEADER ∨ slice bytes 0 4 ≠ MAGIC ∨ slice bytes 22 24 ≠ [0, 0] then
    .error .invalidHeader
  else if (Header.read bytes).invalid (bytes.length - HEADER) then .error .invalidGeometry
  else .ok (Header.read bytes)

/-! ## Reassembly -/

/-- An incomplete frame, with the size of its two reservations. -/
structure Partial where
  data : Bytes
  stride : Nat
  count : Nat
  seen : BitVec 64
  deadline : Nat
  reserved : Nat

structure Reassembler where
  frames : ExtTreeMap Nat Partial := ∅
  buffered : Nat := 0
  retired : Retired := {}
  process : Budget
  mesh : Budget

/-- `u64::count_ones`. -/
def countOnes (x : BitVec 64) : Nat := (List.range 64).countP fun i => x.getLsbD i

namespace Reassembler

def new (process mesh : Budget) : Reassembler := { process, mesh }

/-- Drops a frame and, with it, its reservations. -/
def remove (r : Reassembler) (id : Nat) : Reassembler :=
  match r.frames[id]? with
  | none => r
  | some frame =>
    { r with
      frames := r.frames.erase id
      buffered := r.buffered - frame.data.length
      process := r.process.release frame.reserved
      mesh := r.mesh.release frame.reserved }

/-- Every path on which an id leaves the table ends so. -/
def retire (r : Reassembler) (id : Nat) : Reassembler :=
  let r := r.remove id
  { r with retired := r.retired.insert id }

/-- Releases all reservations of the connection. -/
def clear (r : Reassembler) : Reassembler :=
  let reserved := (r.frames.toList.map fun entry => entry.2.reserved).sum
  { r with
    frames := ∅
    buffered := 0
    process := r.process.release reserved
    mesh := r.mesh.release reserved }

/-- A frame that `expire` drops. -/
def overdue (retired : Retired) (now : Nat) (entry : Nat × Partial) : Bool :=
  entry.2.deadline ≤ now || retired.contains entry.1

def expire (r : Reassembler) (now : Nat) : Reassembler :=
  ((r.frames.toList.filter (overdue r.retired now)).map Prod.fst).foldl retire r

/-- Both reservations of a new frame, or none of them. -/
def reserve (r : Reassembler) (total : Nat) : Option (Budget × Budget) :=
  if r.frames.size ≥ MAX_INCOMPLETE ∨ r.buffered + total > MAX_BUFFERED then none
  else do
    let process ← r.process.reserve total
    let mesh ← r.mesh.reserve total
    return (process, mesh)

/-- An empty frame of the advertised geometry. -/
def fresh (header : Header) (now : Nat) : Partial where
  data := List.replicate header.total 0
  stride := header.stride
  count := header.count
  seen := 0
  deadline := now + LIFETIME
  reserved := header.total

/-- The reassembler once the frame of `header` has its reservations. -/
def opened (r : Reassembler) (header : Header) (now : Nat) (budgets : Budget × Budget) :
    Reassembler :=
  { r with
    frames := r.frames.insert header.id (fresh header now)
    buffered := r.buffered + header.total
    process := budgets.1
    mesh := budgets.2 }

/-- The second half of `push`: one body for the frame `header` names. -/
def accept (r : Reassembler) (header : Header) (body : Bytes) (frame : Partial) :
    Except FragmentError (Option Bytes) × Reassembler :=
  let start := header.index * header.stride
  let bit := 1#64 <<< header.index
  if frame.seen &&& bit ≠ 0 then
    if slice frame.data start (start + body.length) ≠ body then
      (.error .conflictingDuplicate, r.retire header.id)
    else (.ok none, r)
  else
    let frame := { frame with data := overwrite frame.data start body, seen := frame.seen ||| bit }
    let r := { r with frames := r.frames.insert header.id frame }
    if countOnes frame.seen ≠ frame.count then (.ok none, r)
    else (.ok (some frame.data), r.retire header.id)

/-- The geometry of a fragment is that of the frame it joins. -/
def fits (frame : Partial) (header : Header) : Bool :=
  frame.data.length = header.total && frame.stride = header.stride && frame.count = header.count

def push (r : Reassembler) (bytes : Bytes) (now : Nat) :
    Except FragmentError (Option Bytes) × Reassembler :=
  let r := r.expire now
  match Header.parse bytes with
  | .error e => (.error e, r)
  | .ok header =>
    if r.retired.contains header.id then (.ok none, r)
    else
      match r.frames[header.id]? with
      | some frame =>
        if fits frame header then r.accept header (bytes.drop HEADER) frame
        else (.error .conflictingGeometry, r.retire header.id)
      | none =>
        match r.reserve header.total with
        | none => (.ok none, { r with retired := r.retired.insert header.id })
        | some budgets =>
          (r.opened header now budgets).accept header (bytes.drop HEADER) (fresh header now)

/-! ## Runs -/

/-- One call, or a change to the shared budgets from elsewhere. -/
inductive Op where
  | push (bytes : Bytes) (now : Nat)
  | expire (now : Nat)
  | clear
  /-- Other connections now hold this much of the two budgets. -/
  | others (process mesh : Nat)

def step (r : Reassembler) : Op → Reassembler
  | .push bytes now => (r.push bytes now).2
  | .expire now => r.expire now
  | .clear => r.clear
  | .others process mesh =>
    { r with
      process := { r.process with used := r.buffered + process }
      mesh := { r.mesh with used := r.buffered + mesh } }

/-- The reassembler after a run. -/
def run (r : Reassembler) (ops : List Op) : Reassembler := exec step r ops

end Reassembler

end Peerward.Carrier
