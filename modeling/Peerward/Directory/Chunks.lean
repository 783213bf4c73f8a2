import Peerward.Directory.RelayTopology
import Peerward.Lib.Intervals
import Peerward.Lib.Run

/-!
# Revision chunks

A signed object is split into bounded chunks and collected again by `ChunkAssembler`, which
completes a set exactly when every index has arrived and never goes back behind a revision that was
committed. `push` is strict; `push_redundant` also tolerates what several Relay streams repeat.
-/

namespace Peerward.Directory

open Std Peerward.Lib

/-- Independently bounded piece of one serialized signed object. -/
structure RevisionChunk where
  meshId : MeshId
  revision : Nat
  /-- Zero-based index. -/
  index : Nat
  /-- Fixed count for the assembly. -/
  count : Nat
  body : Bytes
  deriving DecidableEq

/-- `usize::MAX`. -/
def USIZE_MAX : Nat := 2 ^ 64 - 1

/-- `div_ceil`. -/
def divCeil (length size : Nat) : Nat := (length + (size - 1)) / size

/-- One element of `bytes.chunks(size)`. -/
def piece (bytes : Bytes) (size index : Nat) : Bytes := (bytes.drop (index * size)).take size

/-- Splits bytes into nonempty independently bounded chunks. -/
def splitChunks (meshId : MeshId) (revision : Nat) (bytes : Bytes) (maximumBody : Nat) :
    Except DirectoryError (List RevisionChunk) :=
  if maximumBody = 0 ∨ bytes = [] then .error .mixedChunks
  else
    let count := divCeil bytes.length maximumBody
    if count ≥ 2 ^ 32 then .error .mixedChunks
    else .ok <| (List.range count).map fun index =>
      { meshId, revision, index, count, body := piece bytes maximumBody index }

structure PendingChunks where
  revision : Nat
  count : Nat
  bytes : Nat := 0
  parts : ExtTreeMap Nat Bytes := ∅

/-- Stateful all-or-nothing chunk collector with rollback protection. -/
structure ChunkAssembler where
  meshId : MeshId
  acceptedRevision : Option Nat := none
  pending : Option PendingChunks := none
  maximumChunks : Nat
  maximumBytes : Nat
  /-- The limit is a `usize`. -/
  maximumBytes_le : maximumBytes ≤ USIZE_MAX

namespace ChunkAssembler

/-- `get_or_insert_with`: the set a chunk is added to. -/
def pendingFor (a : ChunkAssembler) (chunk : RevisionChunk) : PendingChunks :=
  a.pending.getD { revision := chunk.revision, count := chunk.count }

/-- The set with the chunk in it. -/
def gather (a : ChunkAssembler) (chunk : RevisionChunk) : PendingChunks :=
  { a.pendingFor chunk with
    bytes := (a.pendingFor chunk).bytes + chunk.body.length
    parts := (a.pendingFor chunk).parts.insert chunk.index chunk.body }

/-- Adds one chunk, yielding bytes only when the exact set is complete. -/
def push (a : ChunkAssembler) (chunk : RevisionChunk) :
    Except DirectoryError (Option Bytes) × ChunkAssembler :=
  if chunk.meshId ≠ a.meshId then (.error .wrongMesh, a)
  else if a.acceptedRevision.any (chunk.revision ≤ ·) then (.error .rollback, a)
  else if chunk.count = 0 ∨ chunk.count > a.maximumChunks ∨ chunk.index ≥ chunk.count
      ∨ chunk.body = [] then (.error .mixedChunks, a)
  else if a.pending.any fun pending =>
      pending.revision ≠ chunk.revision || pending.count ≠ chunk.count then
    (.error .mixedChunks, { a with pending := none })
  else if (a.pendingFor chunk).parts[chunk.index]?.isSome then
    (.error .mixedChunks, { a with pending := none })
  else if (a.gather chunk).bytes > USIZE_MAX then
    -- the checked addition fails before the set is touched
    (.error .mixedChunks, { a with pending := some (a.pendingFor chunk) })
  else if (a.gather chunk).bytes > a.maximumBytes then
    (.error .mixedChunks, { a with pending := none })
  else if (a.gather chunk).parts.size ≠ (a.gather chunk).count then
    (.ok none, { a with pending := some (a.gather chunk) })
  else
    (.ok (some ((a.gather chunk).parts.toList.flatMap Prod.snd)), { a with pending := none })

/-- The chunk is already held. -/
def holds (a : ChunkAssembler) (chunk : RevisionChunk) : Bool :=
  a.pending.any fun pending =>
    pending.revision = chunk.revision && pending.count = chunk.count
      && pending.parts[chunk.index]? = some chunk.body

/-- Receives state from redundant Relay streams without reinstalling old revisions. -/
def pushRedundant (a : ChunkAssembler) (chunk : RevisionChunk) :
    Except DirectoryError (Option Bytes) × ChunkAssembler :=
  if chunk.meshId ≠ a.meshId then (.error .wrongMesh, a)
  else if a.acceptedRevision.any (chunk.revision ≤ ·) then (.ok none, a)
  else if a.holds chunk then (.ok none, a)
  else a.push chunk

/-- Commits a completely validated revision; failed validation leaves the old revision active. -/
def commit (a : ChunkAssembler) (revision : Nat) : Except DirectoryError Unit × ChunkAssembler :=
  if a.acceptedRevision.any (revision ≤ ·) then (.error .rollback, a)
  else (.ok (), { a with acceptedRevision := some revision })

/-! ## Runs -/

inductive Op where
  | push (chunk : RevisionChunk)
  | pushRedundant (chunk : RevisionChunk)
  | commit (revision : Nat)

def step (a : ChunkAssembler) : Op → ChunkAssembler
  | .push chunk => (a.push chunk).2
  | .pushRedundant chunk => (a.pushRedundant chunk).2
  | .commit revision => (a.commit revision).2

/-- A chunk from one of several streams; a completed set is committed at once. -/
def receive (a : ChunkAssembler) (chunk : RevisionChunk) :
    Except DirectoryError (Option Bytes) × ChunkAssembler :=
  match a.pushRedundant chunk with
  | (.ok (some bytes), a) => (.ok (some bytes), (a.commit chunk.revision).2)
  | other => other

/-- What the calls return for a sequence of chunks. -/
def receiveAll (a : ChunkAssembler) : List RevisionChunk → List (Except DirectoryError (Option Bytes))
  | [] => []
  | chunk :: chunks => (a.receive chunk).1 :: receiveAll (a.receive chunk).2 chunks

end ChunkAssembler

/-! ## Splitting -/

theorem flatMap_piece (bytes : Bytes) (size count : Nat) :
    (List.range count).flatMap (piece bytes size) = bytes.take (count * size) := by
  induction count with
  | zero => simp
  | succ count ih =>
      rw [List.range_succ, List.flatMap_append, ih, List.flatMap_singleton, piece, Nat.succ_mul,
        List.take_add]

theorem length_le_divCeil_mul {length size : Nat} (hsize : 0 < size) :
    length ≤ divCeil length size * size := by
  have hlt := Nat.lt_div_mul_add (a := length + (size - 1)) hsize
  unfold divCeil
  omega

/-- Every piece but those past the end has bytes. -/
theorem piece_ne_nil {bytes : Bytes} {size index : Nat} (hsize : 0 < size)
    (hindex : index < divCeil bytes.length size) : piece bytes size index ≠ [] := by
  have hle : (index + 1) * size ≤ bytes.length + (size - 1) :=
    (Nat.mul_le_mul_right size hindex).trans (Nat.div_mul_le_self _ _)
  rw [Nat.succ_mul] at hle
  have hlength : (piece bytes size index).length = min size (bytes.length - index * size) := by
    rw [piece, List.length_take, List.length_drop]
  intro hnil
  rw [hnil] at hlength
  simp only [List.length_nil] at hlength
  omega

/-- What a successful split returns. -/
theorem splitChunks_eq_ok {meshId : MeshId} {revision maximumBody : Nat} {bytes : Bytes}
    {chunks : List RevisionChunk}
    (h : splitChunks meshId revision bytes maximumBody = .ok chunks) :
    0 < maximumBody ∧ bytes ≠ [] ∧
      chunks = (List.range (divCeil bytes.length maximumBody)).map fun index =>
        { meshId, revision, index, count := divCeil bytes.length maximumBody
          body := piece bytes maximumBody index } := by
  unfold splitChunks at h
  split at h
  · cases h
  · next hvalid =>
    simp only at h
    split at h
    · cases h
    · push Not at hvalid
      exact ⟨by omega, hvalid.2, (Except.ok.inj h).symm⟩

end Peerward.Directory
