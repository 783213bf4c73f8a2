import Peerward.Directory.Chunks

/-!
# Chunk sets over runs

`Sound` says where the parts of a pending set come from, over any run; `Gathering` says what is held
while the chunks of one split object come in, in any order and any number of times.
-/

namespace Peerward.Directory

open Std Peerward.Lib

namespace ChunkAssembler

/-! ## What one push does

A push is refused, or its chunk fits the set it joins. Refused, it keeps the set, drops it or begins
another; what it never does is to put a chunk where it does not fit.
-/

/-- The conditions under which `push` adds a chunk. -/
structure Fits (a : ChunkAssembler) (chunk : RevisionChunk) : Prop where
  mesh : chunk.meshId = a.meshId
  newer : ∀ accepted, a.acceptedRevision = some accepted → accepted < chunk.revision
  index : chunk.index < chunk.count
  count : chunk.count ≤ a.maximumChunks
  body : chunk.body ≠ []
  same : ∀ pending, a.pending = some pending →
    pending.revision = chunk.revision ∧ pending.count = chunk.count
  free : (a.pendingFor chunk).parts[chunk.index]? = none
  bytes : (a.gather chunk).bytes ≤ a.maximumBytes

/-- The set the chunk would complete. -/
def Complete (pending : PendingChunks) : Prop := pending.parts.size = pending.count

theorem newer_iff {a : ChunkAssembler} {revision : Nat} :
    a.acceptedRevision.any (revision ≤ ·) = false ↔
      ∀ accepted, a.acceptedRevision = some accepted → accepted < revision := by
  cases a.acceptedRevision <;> simp

theorem same_iff {a : ChunkAssembler} {chunk : RevisionChunk} :
    (a.pending.any fun pending =>
        pending.revision ≠ chunk.revision || pending.count ≠ chunk.count) = false ↔
      ∀ pending, a.pending = some pending →
        pending.revision = chunk.revision ∧ pending.count = chunk.count := by
  cases a.pending <;> simp

/-- A chunk that fits is added, and completes the set or not. -/
theorem push_fits {a : ChunkAssembler} {chunk : RevisionChunk} (h : Fits a chunk) :
    a.push chunk =
      if (a.gather chunk).parts.size ≠ (a.gather chunk).count then
        (.ok none, { a with pending := some (a.gather chunk) })
      else
        (.ok (some ((a.gather chunk).parts.toList.flatMap Prod.snd)),
          { a with pending := none }) := by
  have hindex := h.index
  have hcount := h.count
  have hbytes := h.bytes
  have hmax := a.maximumBytes_le
  have hshape : ¬ (chunk.count = 0 ∨ chunk.count > a.maximumChunks ∨ chunk.index ≥ chunk.count
      ∨ chunk.body = []) := by
    rintro (hzero | hmany | hpast | hempty)
    · omega
    · omega
    · omega
    · exact h.body hempty
  unfold push
  rw [if_neg (by simp [h.mesh]), newer_iff.mpr h.newer, if_neg (by simp), if_neg hshape,
    same_iff.mpr h.same, if_neg (by simp), h.free, if_neg (by simp), if_neg (by omega),
    if_neg (by omega)]

/-- A chunk fits, or it is refused and its set kept, begun or dropped. -/
theorem push_cases (a : ChunkAssembler) (chunk : RevisionChunk) :
    Fits a chunk ∨ ∃ err pending, a.push chunk = (.error err, { a with pending := pending }) ∧
      (pending = a.pending ∨ pending = none ∨ pending = some (a.pendingFor chunk)) := by
  by_cases hmesh : chunk.meshId = a.meshId
  swap
  · exact .inr ⟨.wrongMesh, a.pending, by rw [push, if_pos hmesh], .inl rfl⟩
  cases hnewer : a.acceptedRevision.any (chunk.revision ≤ ·) with
  | true =>
      exact .inr ⟨.rollback, a.pending, by rw [push, if_neg (by simp [hmesh]), if_pos hnewer],
        .inl rfl⟩
  | false =>
  by_cases hshape : chunk.count = 0 ∨ chunk.count > a.maximumChunks ∨ chunk.index ≥ chunk.count
      ∨ chunk.body = []
  · exact .inr ⟨.mixedChunks, a.pending, by
      rw [push, if_neg (by simp [hmesh]), hnewer, if_neg (by simp), if_pos hshape], .inl rfl⟩
  cases hsame : (a.pending.any fun pending =>
      pending.revision ≠ chunk.revision || pending.count ≠ chunk.count) with
  | true =>
      exact .inr ⟨.mixedChunks, none, by
        rw [push, if_neg (by simp [hmesh]), hnewer, if_neg (by simp), if_neg hshape, if_pos hsame],
        .inr (.inl rfl)⟩
  | false =>
  cases hfree : (a.pendingFor chunk).parts[chunk.index]? with
  | some body =>
      exact .inr ⟨.mixedChunks, none, by
        rw [push, if_neg (by simp [hmesh]), hnewer, if_neg (by simp), if_neg hshape, hsame,
          if_neg (by simp), hfree, if_pos (by simp)], .inr (.inl rfl)⟩
  | none =>
  by_cases hoverflow : (a.gather chunk).bytes > USIZE_MAX
  · exact .inr ⟨.mixedChunks, some (a.pendingFor chunk), by
      rw [push, if_neg (by simp [hmesh]), hnewer, if_neg (by simp), if_neg hshape, hsame,
        if_neg (by simp), hfree, if_neg (by simp), if_pos hoverflow], .inr (.inr rfl)⟩
  by_cases hbytes : (a.gather chunk).bytes > a.maximumBytes
  · exact .inr ⟨.mixedChunks, none, by
      rw [push, if_neg (by simp [hmesh]), hnewer, if_neg (by simp), if_neg hshape, hsame,
        if_neg (by simp), hfree, if_neg (by simp), if_neg hoverflow, if_pos hbytes],
      .inr (.inl rfl)⟩
  · simp only [not_or, Nat.not_le, Nat.not_lt] at hshape
    exact .inl ⟨hmesh, newer_iff.mp hnewer, by omega, by omega, hshape.2.2.2, same_iff.mp hsame,
      hfree, by omega⟩

/-- A chunk that fits has its own revision and count in the set it joins. -/
theorem Fits.gather {a : ChunkAssembler} {chunk : RevisionChunk} (h : Fits a chunk) :
    (a.gather chunk).revision = chunk.revision ∧ (a.gather chunk).count = chunk.count := by
  show (a.pendingFor chunk).revision = _ ∧ (a.pendingFor chunk).count = _
  unfold pendingFor
  cases hpending : a.pending with
  | none => exact ⟨rfl, rfl⟩
  | some pending => exact h.same pending hpending

theorem getElem?_gather (a : ChunkAssembler) (chunk : RevisionChunk) (o : Nat) :
    (a.gather chunk).parts[o]? =
      if chunk.index = o then some chunk.body else (a.pendingFor chunk).parts[o]? := by
  simp only [ChunkAssembler.gather, ExtTreeMap.getElem?_insert, LawfulEqOrd.compare_eq_iff_eq]

/-- Adding a chunk where nothing is held keeps the bytes counted. -/
theorem total_gather {a : ChunkAssembler} {chunk : RevisionChunk}
    (hfree : (a.pendingFor chunk).parts[chunk.index]? = none)
    (hbytes : (a.pendingFor chunk).bytes = total List.length (a.pendingFor chunk).parts) :
    (a.gather chunk).bytes = total List.length (a.gather chunk).parts := by
  show (a.pendingFor chunk).bytes + chunk.body.length = total _ ((a.pendingFor chunk).parts.insert _ _)
  rw [total_insert_fresh _ _ hfree, hbytes, Nat.add_comm]

/-! ## Arbitrary runs

Whatever was pushed, a completed set consists of chunks that were handed over for it, one for each index,
and all of one revision and count.
-/

/-- The chunk an operation hands over. -/
def Op.chunk? : Op → Option RevisionChunk
  | .push chunk | .pushRedundant chunk => some chunk
  | .commit _ => none

/-- The parts of a set are chunks that were handed over for it, and counted. -/
structure Gathered (a : ChunkAssembler) (given : List RevisionChunk) (pending : PendingChunks) :
    Prop where
  given : ∀ (index : Nat) (body : Bytes), pending.parts[index]? = some body → index < pending.count ∧
    RevisionChunk.mk a.meshId pending.revision index pending.count body ∈ given
  bytes : pending.bytes = total List.length pending.parts
  bytes_le : pending.bytes ≤ a.maximumBytes

def Sound (a : ChunkAssembler) (given : List RevisionChunk) : Prop :=
  ∀ pending, a.pending = some pending → Gathered a given pending

theorem Gathered.mono {a : ChunkAssembler} {given given' : List RevisionChunk}
    {pending : PendingChunks} (h : Gathered a given pending) (hsub : given ⊆ given') :
    Gathered a given' pending :=
  ⟨fun index body hpart => ⟨(h.given index body hpart).1, hsub (h.given index body hpart).2⟩,
    h.bytes, h.bytes_le⟩

theorem Sound.pendingFor {a : ChunkAssembler} {given : List RevisionChunk} (h : Sound a given)
    (chunk : RevisionChunk) : Gathered a given (a.pendingFor chunk) := by
  unfold ChunkAssembler.pendingFor
  cases hpending : a.pending with
  | none => exact ⟨by simp, by simp, by simp⟩
  | some pending => exact h pending hpending

/-- A chunk that fits joins a set made of chunks like it. -/
theorem Sound.gather {a : ChunkAssembler} {given : List RevisionChunk} (h : Sound a given)
    {chunk : RevisionChunk} (hfits : Fits a chunk) :
    Gathered a (given ++ [chunk]) (a.gather chunk) := by
  have hbefore := h.pendingFor chunk
  obtain ⟨hrevision, hcount⟩ := hfits.gather
  refine ⟨?_, total_gather hfits.free hbefore.bytes, hfits.bytes⟩
  intro index body hpart
  rw [getElem?_gather] at hpart
  split at hpart
  · next heq =>
    cases hpart
    rw [hrevision, hcount, ← heq, ← hfits.mesh]
    exact ⟨hfits.index, by simp⟩
  · obtain ⟨hlt, hmem⟩ := hbefore.given index body hpart
    exact ⟨hlt, List.mem_append_left _ hmem⟩

theorem Sound.push {a : ChunkAssembler} {given : List RevisionChunk} (h : Sound a given)
    (chunk : RevisionChunk) : Sound (a.push chunk).2 (given ++ [chunk]) := by
  have hleft : given ⊆ given ++ [chunk] := List.subset_append_left _ _
  rcases push_cases a chunk with hfits | ⟨err, pending, hpush, hkept⟩
  · rw [push_fits hfits]
    split
    · intro pending hpending
      cases hpending
      have hgathered := h.gather hfits
      exact ⟨hgathered.given, hgathered.bytes, hgathered.bytes_le⟩
    · intro pending hpending
      cases hpending
  · rw [hpush]
    intro pending' hpending
    replace hpending : pending = some pending' := hpending
    have hgathered : Gathered a (given ++ [chunk]) pending' := by
      rcases hkept with rfl | rfl | rfl
      · exact (h pending' hpending).mono hleft
      · cases hpending
      · cases hpending
        exact (h.pendingFor chunk).mono hleft
    exact ⟨hgathered.given, hgathered.bytes, hgathered.bytes_le⟩

theorem pushRedundant_cases (a : ChunkAssembler) (chunk : RevisionChunk) :
    (a.pushRedundant chunk).2 = a ∧ (∀ out, (a.pushRedundant chunk).1 ≠ .ok (some out)) ∨
      a.pushRedundant chunk = a.push chunk := by
  unfold pushRedundant
  split
  · exact .inl ⟨rfl, nofun⟩
  split
  · exact .inl ⟨rfl, nofun⟩
  split
  · exact .inl ⟨rfl, nofun⟩
  · exact .inr rfl

theorem push_limits (a : ChunkAssembler) (chunk : RevisionChunk) :
    (a.push chunk).2.meshId = a.meshId ∧ (a.push chunk).2.maximumBytes = a.maximumBytes := by
  rcases push_cases a chunk with hfits | ⟨err, pending, hpush, -⟩
  · rw [push_fits hfits]
    split <;> exact ⟨rfl, rfl⟩
  · rw [hpush]
    exact ⟨rfl, rfl⟩

theorem step_limits (a : ChunkAssembler) (op : Op) :
    (a.step op).meshId = a.meshId ∧ (a.step op).maximumBytes = a.maximumBytes := by
  cases op with
  | push chunk => exact push_limits a chunk
  | pushRedundant chunk =>
      show (a.pushRedundant chunk).2.meshId = _ ∧ (a.pushRedundant chunk).2.maximumBytes = _
      rcases pushRedundant_cases a chunk with ⟨hsame, -⟩ | hpush
      · rw [hsame]
        exact ⟨rfl, rfl⟩
      · rw [hpush]
        exact push_limits a chunk
  | commit revision =>
      show (a.commit revision).2.meshId = _ ∧ (a.commit revision).2.maximumBytes = _
      unfold commit
      split <;> exact ⟨rfl, rfl⟩

theorem run_limits (a : ChunkAssembler) (ops : List Op) :
    (exec step a ops).meshId = a.meshId ∧ (exec step a ops).maximumBytes = a.maximumBytes :=
  exec_invariant (I := fun s => s.meshId = a.meshId ∧ s.maximumBytes = a.maximumBytes) ⟨rfl, rfl⟩
    (fun s op h => ⟨(step_limits s op).1.trans h.1, (step_limits s op).2.trans h.2⟩) ops

theorem run_sound {start : ChunkAssembler} (hstart : start.pending = none) (ops : List Op) :
    Sound (exec step start ops) (ops.filterMap Op.chunk?) := by
  refine exec_history (I := fun ops a => Sound a (ops.filterMap Op.chunk?)) ?_ ?_ ops
  · intro pending hpending
    rw [hstart] at hpending
    cases hpending
  · intro ops op h
    rw [List.filterMap_append]
    cases op with
    | push chunk => exact h.push chunk
    | pushRedundant chunk =>
        show Sound (ChunkAssembler.pushRedundant _ chunk).2 _
        rcases pushRedundant_cases (exec step start ops) chunk with ⟨hsame, -⟩ | hpush
        · rw [hsame]
          exact fun pending hpending =>
            (h pending hpending).mono (List.subset_append_left _ _)
        · rw [hpush]
          exact h.push chunk
    | commit revision =>
        show Sound (ChunkAssembler.commit _ revision).2 _
        have hall : Sound (exec step start ops) (ops.filterMap Op.chunk? ++ []) := by
          rw [List.append_nil]
          exact h
        unfold commit
        split
        · exact hall
        · intro pending hpending
          have hgathered := hall pending hpending
          exact ⟨hgathered.given, hgathered.bytes, hgathered.bytes_le⟩

/-- A completed set is one chunk for each index, all of one revision and count. -/
theorem completed_parts {a : ChunkAssembler} {given : List RevisionChunk} (h : Sound a given)
    {chunk : RevisionChunk} {out : Bytes} (hout : (a.push chunk).1 = .ok (some out)) :
    chunk.meshId = a.meshId ∧
      (∀ accepted, a.acceptedRevision = some accepted → accepted < chunk.revision) ∧
      out.length ≤ a.maximumBytes ∧
      ∃ body : Nat → Bytes, out = (List.range chunk.count).flatMap body ∧
        ∀ index < chunk.count,
          RevisionChunk.mk a.meshId chunk.revision index chunk.count (body index) ∈
            given ++ [chunk] := by
  rcases push_cases a chunk with hfits | ⟨err, pending, hpush, -⟩
  swap
  · rw [hpush] at hout
    cases hout
  rw [push_fits hfits] at hout
  split at hout
  · cases hout
  next hsize =>
  simp only [ne_eq, Decidable.not_not] at hsize
  cases hout
  have hgathered := h.gather hfits
  obtain ⟨hrevision, hcount⟩ := hfits.gather
  have hkeys := keys_eq_range (fun o v hv => (hgathered.given o v hv).1) hsize
  rw [hcount] at hkeys
  let body : Nat → Bytes := fun index => (a.gather chunk).parts[index]?.getD []
  have hbody : ∀ entry ∈ (a.gather chunk).parts.toList, entry.2 = body entry.1 := by
    intro entry hmem
    have hentry := ExtTreeMap.mem_toList_iff_getElem?_eq_some.mp hmem
    simp only [body, hentry, Option.getD_some]
  have hlist : (a.gather chunk).parts.toList.flatMap Prod.snd =
      (List.range chunk.count).flatMap body := by
    rw [← hkeys, List.flatMap_map, List.flatMap_congr hbody]
  refine ⟨hfits.mesh, hfits.newer, ?_, body, hlist, ?_⟩
  · have hlength : ((a.gather chunk).parts.toList.flatMap Prod.snd).length =
        (a.gather chunk).bytes := by
      rw [hgathered.bytes, List.length_flatMap]
      rfl
    exact hlength.trans_le hgathered.bytes_le
  · intro index hindex
    have hmem : index ∈ (a.gather chunk).parts.toList.map Prod.fst := by
      rw [hkeys]
      exact List.mem_range.mpr hindex
    obtain ⟨⟨index', held⟩, hentry, rfl⟩ := List.mem_map.mp hmem
    have hpart := ExtTreeMap.mem_toList_iff_getElem?_eq_some.mp hentry
    have hgiven := (hgathered.given index' held hpart).2
    rw [hrevision, hcount] at hgiven
    simpa [body, hpart] using hgiven

/-! ## The chunks of one object

With the chunks of one object only, the set holds what was seen of them. A repeated chunk is found to be the
same, and the one that was missing last completes the object.
-/

/-- The chunk at one index. -/
def chunkAt (meshId : MeshId) (revision count : Nat) (body : Nat → Bytes) (index : Nat) :
    RevisionChunk :=
  { meshId, revision, index, count, body := body index }

/-- What is held after the chunks `seen`, while some are still missing. -/
structure Gathering (revision count : Nat) (body : Nat → Bytes) (seen : List Nat)
    (a : ChunkAssembler) : Prop where
  newer : ∀ accepted, a.acceptedRevision = some accepted → accepted < revision
  pending : ∀ pending, a.pending = some pending →
    pending.revision = revision ∧ pending.count = count ∧
      pending.bytes = total List.length pending.parts ∧
      ∀ o b, pending.parts[o]? = some b ↔ o ∈ seen ∧ b = body o
  empty : a.pending = none → seen = []
  range : ∀ index ∈ seen, index < count

section Gathering

variable {revision count : Nat} {body : Nat → Bytes} {seen : List Nat} {a : ChunkAssembler}

/-- The set the next chunk joins holds exactly what was seen. -/
theorem Gathering.pendingFor (h : Gathering revision count body seen a) (index : Nat) :
    let pending := a.pendingFor (chunkAt a.meshId revision count body index)
    pending.bytes = total List.length pending.parts ∧
      ∀ o b, pending.parts[o]? = some b ↔ o ∈ seen ∧ b = body o := by
  unfold ChunkAssembler.pendingFor
  cases hpending : a.pending with
  | none =>
      rw [h.empty hpending]
      exact ⟨by simp, by simp⟩
  | some pending => exact (h.pending pending hpending).2.2

/-- A chunk that was seen is held. -/
theorem Gathering.holds (h : Gathering revision count body seen a) {index : Nat}
    (hseen : index ∈ seen) : a.holds (chunkAt a.meshId revision count body index) = true := by
  unfold ChunkAssembler.holds
  cases hpending : a.pending with
  | none =>
      rw [h.empty hpending] at hseen
      cases hseen
  | some pending =>
      obtain ⟨hrevision, hcount, -, hparts⟩ := h.pending pending hpending
      have hpart := (hparts index (body index)).mpr ⟨hseen, rfl⟩
      simp [chunkAt, hrevision, hcount, hpart]

/-- A chunk that was not seen is not held. -/
theorem Gathering.not_holds (h : Gathering revision count body seen a) {index : Nat}
    (hseen : index ∉ seen) : a.holds (chunkAt a.meshId revision count body index) = false := by
  unfold ChunkAssembler.holds
  cases hpending : a.pending with
  | none => rfl
  | some pending =>
      obtain ⟨-, -, -, hparts⟩ := h.pending pending hpending
      have hpart : pending.parts[index]? ≠ some (body index) := fun hsome =>
        hseen ((hparts index (body index)).mp hsome).1
      simp [chunkAt, hpart]

theorem Gathering.parts (h : Gathering revision count body seen a) (index o : Nat) (b : Bytes) :
    (a.gather (chunkAt a.meshId revision count body index)).parts[o]? = some b ↔
      (o = index ∨ o ∈ seen) ∧ b = body o := by
  rw [getElem?_gather]
  have hparts := (h.pendingFor index).2 o b
  split
  · next heq =>
    replace heq : index = o := heq
    subst heq
    simp [chunkAt, eq_comm]
  · next hne =>
    have hne' : o ≠ index := fun heq => hne heq.symm
    simp [hparts, hne']

/-- A new chunk fits. -/
theorem Gathering.fits (h : Gathering revision count body seen a) {index : Nat}
    (hindex : index < count) (hseen : index ∉ seen) (hbody : body index ≠ [])
    (hcount : count ≤ a.maximumChunks)
    (hbytes : ((List.range count).map fun o => (body o).length).sum ≤ a.maximumBytes) :
    Fits a (chunkAt a.meshId revision count body index) := by
  have hfree : (a.pendingFor (chunkAt a.meshId revision count body index)).parts[index]? = none := by
    rw [Option.eq_none_iff_forall_ne_some]
    intro b hb
    exact hseen (((h.pendingFor index).2 index b).mp hb).1
  refine ⟨rfl, h.newer, hindex, hcount, hbody,
    fun pending hpending => ⟨(h.pending pending hpending).1, (h.pending pending hpending).2.1⟩,
    hfree, ?_⟩
  rw [total_gather hfree (h.pendingFor index).1]
  refine (total_le_sum List.length fun o b hb => ?_).trans hbytes
  obtain ⟨hwhich, hsame⟩ := (h.parts index o b).mp hb
  refine ⟨?_, hsame⟩
  rcases hwhich with rfl | hold
  · exact hindex
  · exact h.range o hold

/-- Every index has been seen. -/
def AllSeen (count : Nat) (seen : List Nat) : Prop := ∀ index < count, index ∈ seen

/-- **One chunk.** A repeated chunk changes nothing, a new one is added, and the last one completes
the set. -/
theorem Gathering.receive (h : Gathering revision count body seen a) {index : Nat}
    (hindex : index < count) (hbody : ∀ o < count, body o ≠ [])
    (hcount : count ≤ a.maximumChunks)
    (hbytes : ((List.range count).map fun o => (body o).length).sum ≤ a.maximumBytes)
    (hmissing : ¬ AllSeen count seen) :
    let result := a.receive (chunkAt a.meshId revision count body index)
    result.2.meshId = a.meshId ∧ result.2.maximumChunks = a.maximumChunks ∧
      result.2.maximumBytes = a.maximumBytes ∧
      (¬ AllSeen count (seen ++ [index]) → result.1 = .ok none ∧
        Gathering revision count body (seen ++ [index]) result.2) ∧
      (AllSeen count (seen ++ [index]) →
        result.1 = .ok (some ((List.range count).flatMap body)) ∧
          result.2.acceptedRevision = some revision) := by
  have hnewer : a.acceptedRevision.any
      ((chunkAt a.meshId revision count body index).revision ≤ ·) = false :=
    newer_iff.mpr h.newer
  by_cases hseen : index ∈ seen
  · -- repeated
    have hreceive : a.receive (chunkAt a.meshId revision count body index) = (.ok none, a) := by
      unfold ChunkAssembler.receive pushRedundant
      rw [if_neg (by simp [chunkAt]), hnewer, if_neg (by simp), if_pos (h.holds hseen)]
    have hsame : ∀ o, o ∈ seen ++ [index] ↔ o ∈ seen := by
      intro o
      simp only [List.mem_append, List.mem_singleton, or_iff_left_iff_imp]
      rintro rfl
      exact hseen
    rw [hreceive]
    refine ⟨rfl, rfl, rfl, fun _ => ⟨rfl, h.newer, ?_, ?_, ?_⟩, fun hall => ?_⟩
    · intro pending hpending
      obtain ⟨hrevision, hcount', hbytes', hparts⟩ := h.pending pending hpending
      exact ⟨hrevision, hcount', hbytes', fun o b => by rw [hparts, hsame]⟩
    · intro hnone
      rw [h.empty hnone] at hseen
      cases hseen
    · exact fun o ho => h.range o ((hsame o).mp ho)
    · exact absurd (fun o ho => (hsame o).mp (hall o ho)) hmissing
  -- new: it fits, and joins the set that is held
  have hfits := h.fits hindex hseen (hbody index hindex) hcount hbytes
  have hredundant : a.pushRedundant (chunkAt a.meshId revision count body index) =
      a.push (chunkAt a.meshId revision count body index) := by
    unfold pushRedundant
    rw [if_neg (by simp [chunkAt]), hnewer, if_neg (by simp), h.not_holds hseen, if_neg (by simp)]
  obtain ⟨hrevision, hcount'⟩ := hfits.gather
  replace hcount' : (a.gather (chunkAt a.meshId revision count body index)).count = count := hcount'
  have hrange : ∀ o b, (a.gather (chunkAt a.meshId revision count body index)).parts[o]? = some b →
      o < count := by
    intro o b hb
    rcases ((h.parts index o b).mp hb).1 with rfl | hold
    · exact hindex
    · exact h.range o hold
  unfold ChunkAssembler.receive
  rw [hredundant, push_fits hfits, hcount']
  by_cases hall : AllSeen count (seen ++ [index])
  · -- complete: the parts are listed in order
    have hlist : (a.gather (chunkAt a.meshId revision count body index)).parts.toList =
        (List.range count).map fun o => (o, body o) := by
      refine toList_eq_of_mem ?_ ?_
      · rw [List.pairwise_map]
        exact List.pairwise_lt_range
      · intro o b
        rw [h.parts]
        simp only [List.mem_map, List.mem_range, Prod.mk.injEq]
        constructor
        · rintro ⟨hwhich, rfl⟩
          refine ⟨o, ?_, rfl, rfl⟩
          rcases hwhich with rfl | hold
          · exact hindex
          · exact h.range o hold
        · rintro ⟨o', hlt, rfl, rfl⟩
          refine ⟨?_, rfl⟩
          have hmem := hall o' hlt
          simp only [List.mem_append, List.mem_singleton] at hmem
          exact hmem.symm
    have hsize : (a.gather (chunkAt a.meshId revision count body index)).parts.size = count := by
      rw [← ExtTreeMap.length_toList, hlist, List.length_map, List.length_range]
    rw [if_neg (by simp [hsize])]
    have hcommit : ({ a with pending := none } : ChunkAssembler).commit revision =
        (.ok (), { a with pending := none, acceptedRevision := some revision }) := by
      unfold commit
      rw [show ({ a with pending := none } : ChunkAssembler).acceptedRevision.any (revision ≤ ·) =
        false from newer_iff.mpr h.newer, if_neg (by simp)]
    have hout : (a.gather (chunkAt a.meshId revision count body index)).parts.toList.flatMap Prod.snd =
        (List.range count).flatMap body := by
      rw [hlist, List.flatMap_map]
    have hsame : (chunkAt a.meshId revision count body index).revision = revision := rfl
    simp only [hsame, hcommit]
    exact ⟨trivial, trivial, trivial, fun hnot => absurd hall hnot, fun _ => ⟨by rw [hout], trivial⟩⟩
  · -- incomplete: as many parts as the count would be all of them
    have hsize : (a.gather (chunkAt a.meshId revision count body index)).parts.size ≠ count := by
      intro hsize
      apply hall
      intro o ho
      have hmem : o ∈ (a.gather (chunkAt a.meshId revision count body index)).parts.toList.map
          Prod.fst := by
        rw [keys_eq_range hrange hsize]
        exact List.mem_range.mpr ho
      obtain ⟨⟨o', b⟩, hentry, rfl⟩ := List.mem_map.mp hmem
      have hpart := ExtTreeMap.mem_toList_iff_getElem?_eq_some.mp hentry
      simpa [or_comm] using ((h.parts index o' b).mp hpart).1
    rw [if_pos hsize]
    refine ⟨rfl, rfl, rfl, fun _ => ⟨rfl, h.newer, ?_, nofun, ?_⟩, fun hyes => absurd hyes hall⟩
    · intro pending hpending
      cases hpending
      refine ⟨hrevision, hcount', total_gather hfits.free (h.pendingFor index).1, fun o b => ?_⟩
      rw [h.parts]
      simp [or_comm]
    · intro o ho
      rcases List.mem_append.mp ho with hold | hnew
      · exact h.range o hold
      · rw [List.mem_singleton] at hnew
        omega

/-- After the commit every further copy is dropped. -/
theorem receiveAll_accepted (haccepted : a.acceptedRevision = some revision) (feed : List Nat) :
    a.receiveAll (feed.map (chunkAt a.meshId revision count body)) =
      List.replicate feed.length (.ok none) := by
  induction feed with
  | nil => rfl
  | cons index feed ih =>
      have hreceive : a.receive (chunkAt a.meshId revision count body index) = (.ok none, a) := by
        unfold ChunkAssembler.receive pushRedundant
        rw [if_neg (by simp [chunkAt]), haccepted, if_pos (by simp [chunkAt])]
      rw [List.map_cons, receiveAll, hreceive, ih]
      rfl

/-- The set completes once, with the chunk that was missing last. -/
theorem Gathering.receiveAll (h : Gathering revision count body seen a) (feed : List Nat)
    (hfeed : ∀ index ∈ feed, index < count) (hbody : ∀ o < count, body o ≠ [])
    (hcount : count ≤ a.maximumChunks)
    (hbytes : ((List.range count).map fun o => (body o).length).sum ≤ a.maximumBytes)
    (hmissing : ¬ AllSeen count seen) (hall : AllSeen count (seen ++ feed)) :
    ∃ before index after, feed = before ++ index :: after ∧
      a.receiveAll (feed.map (chunkAt a.meshId revision count body)) =
        List.replicate before.length (.ok none) ++
          .ok (some ((List.range count).flatMap body)) ::
            List.replicate after.length (.ok none) := by
  induction feed generalizing seen a with
  | nil =>
      rw [List.append_nil] at hall
      exact absurd hall hmissing
  | cons index feed ih =>
      obtain ⟨hmesh, hchunks, hlimit, hmore, hdone⟩ :=
        h.receive (hfeed index (by simp)) hbody hcount hbytes hmissing
      rw [List.map_cons, ChunkAssembler.receiveAll]
      generalize a.receive (chunkAt a.meshId revision count body index) = result at *
      by_cases hlast : AllSeen count (seen ++ [index])
      · obtain ⟨hout, haccepted⟩ := hdone hlast
        refine ⟨[], index, feed, rfl, ?_⟩
        rw [hout, ← hmesh, receiveAll_accepted haccepted]
        rfl
      · obtain ⟨hout, hnext⟩ := hmore hlast
        obtain ⟨before, last, after, hsplit, hrest⟩ := ih hnext
          (fun o ho => hfeed o (List.mem_cons_of_mem _ ho)) (hchunks ▸ hcount) (hlimit ▸ hbytes)
          hlast (by simpa using hall)
        refine ⟨index :: before, last, after, by rw [hsplit]; rfl, ?_⟩
        rw [hout, ← hmesh, hrest]
        rfl

end Gathering

/-- **Chunk sets are assembled whole or not at all.** The chunks of one split object, in any order
and with any repetition, complete it exactly once, and no call fails; and whatever is handed to an
assembler, what it completes is one chunk for each index of a single newer revision. -/
theorem chunks_assemble (a : ChunkAssembler) (revision maximumBody : Nat) (bytes : Bytes)
    (chunks feed : List RevisionChunk)
    (hsplit : splitChunks a.meshId revision bytes maximumBody = .ok chunks)
    (hcount : chunks.length ≤ a.maximumChunks) (hbytes : bytes.length ≤ a.maximumBytes)
    (hpending : a.pending = none)
    (hnewer : ∀ accepted, a.acceptedRevision = some accepted → accepted < revision)
    (hfeed : ∀ chunk, chunk ∈ feed ↔ chunk ∈ chunks) :
    (∃ before last after, feed = before ++ last :: after ∧
      a.receiveAll feed = List.replicate before.length (.ok none) ++
        .ok (some bytes) :: List.replicate after.length (.ok none)) ∧
    ∀ (start : ChunkAssembler) (ops : List Op) (chunk : RevisionChunk) (out : Bytes),
      start.pending = none →
      ((exec step start ops).push chunk).1 = .ok (some out) ∨
        ((exec step start ops).pushRedundant chunk).1 = .ok (some out) →
      chunk.meshId = start.meshId ∧
      (∀ accepted, (exec step start ops).acceptedRevision = some accepted →
        accepted < chunk.revision) ∧
      out.length ≤ start.maximumBytes ∧
      ∃ body : Nat → Bytes, out = (List.range chunk.count).flatMap body ∧
        ∀ index < chunk.count, RevisionChunk.mk start.meshId chunk.revision index chunk.count
          (body index) ∈ ops.filterMap Op.chunk? ++ [chunk] := by
  constructor
  · obtain ⟨hpos, hne, rfl⟩ := splitChunks_eq_ok hsplit
    set count := divCeil bytes.length maximumBody with hcount_eq
    rw [List.length_map, List.length_range] at hcount
    let body : Nat → Bytes := piece bytes maximumBody
    have hwhole : (List.range count).flatMap body = bytes := by
      rw [flatMap_piece]
      exact List.take_of_length_le (length_le_divCeil_mul hpos)
    have hsum : ((List.range count).map fun o => (body o).length).sum ≤ a.maximumBytes := by
      rw [← List.length_flatMap, hwhole]
      exact hbytes
    have hpositive : 0 < count :=
      Nat.div_pos (by have := List.length_pos_of_ne_nil hne; omega) hpos
    have hchunk : ∀ chunk ∈ feed, chunk.index < count ∧
        chunkAt a.meshId revision count body chunk.index = chunk := by
      intro chunk hmem
      obtain ⟨index, hindex, rfl⟩ := List.mem_map.mp ((hfeed chunk).mp hmem)
      exact ⟨List.mem_range.mp hindex, rfl⟩
    have hindices : feed = (feed.map RevisionChunk.index).map
        (chunkAt a.meshId revision count body) := by
      rw [List.map_map]
      exact (List.map_id' feed).symm.trans
        (List.map_congr_left fun chunk hmem => (hchunk chunk hmem).2.symm)
    have hstart : Gathering revision count body [] a := by
      refine ⟨hnewer, fun pending hsome => ?_, fun _ => rfl, by simp⟩
      rw [hpending] at hsome
      cases hsome
    obtain ⟨before, last, after, hwhere, houtputs⟩ := hstart.receiveAll
      (feed.map RevisionChunk.index)
      (by
        intro index hmem
        obtain ⟨chunk, hchunk_mem, rfl⟩ := List.mem_map.mp hmem
        exact (hchunk chunk hchunk_mem).1)
      (fun o ho => piece_ne_nil hpos ho) hcount hsum
      (fun hall => by cases hall 0 hpositive)
      (by
        intro index hindex
        rw [List.nil_append]
        exact List.mem_map.mpr ⟨chunkAt a.meshId revision count body index,
          (hfeed _).mpr (List.mem_map.mpr ⟨index, List.mem_range.mpr hindex, rfl⟩), rfl⟩)
    rw [← hindices, hwhole] at houtputs
    obtain ⟨front, rest, hfront, hbefore, hrest⟩ := List.map_eq_append_iff.mp hwhere
    obtain ⟨chunk, back, hback, hlast, hafter⟩ := List.map_eq_cons_iff.mp hrest
    refine ⟨front, chunk, back, by rw [hfront, hback], ?_⟩
    rw [houtputs, ← hbefore, ← hafter, List.length_map, List.length_map]
  · intro start ops chunk out hstart hout
    have hpush : ((exec step start ops).push chunk).1 = .ok (some out) := by
      rcases hout with hpush | hredundant
      · exact hpush
      · rcases pushRedundant_cases (exec step start ops) chunk with ⟨-, hnever⟩ | hsame
        · exact absurd hredundant (hnever out)
        · rw [hsame] at hredundant
          exact hredundant
    obtain ⟨hmesh, hlimit⟩ := run_limits start ops
    have hparts := completed_parts (run_sound hstart ops) hpush
    rw [hmesh, hlimit] at hparts
    exact hparts

/-- Six bytes in two chunks, from two streams at once. -/
theorem chunks_assemble_twice :
    ∃ (a : ChunkAssembler) (head tail : RevisionChunk),
      splitChunks a.meshId 1 [1, 2, 3, 4, 5, 6] 3 = .ok [head, tail] ∧
      .ok (some [1, 2, 3, 4, 5, 6]) ∈ a.receiveAll [tail, tail, head, head] := by
  let a : ChunkAssembler :=
    { meshId := 7, maximumChunks := 8, maximumBytes := 32, maximumBytes_le := by decide }
  let head : RevisionChunk := { meshId := 7, revision := 1, index := 0, count := 2, body := [1, 2, 3] }
  let tail : RevisionChunk := { meshId := 7, revision := 1, index := 1, count := 2, body := [4, 5, 6] }
  have hsplit : splitChunks a.meshId 1 [1, 2, 3, 4, 5, 6] 3 = .ok [head, tail] := by rfl
  obtain ⟨⟨before, last, after, -, houtputs⟩, -⟩ :=
    chunks_assemble a 1 3 [1, 2, 3, 4, 5, 6] [head, tail] [tail, tail, head, head] hsplit
      (by decide) (by decide) rfl (by simp [a]) (by simp [or_comm])
  refine ⟨a, head, tail, hsplit, ?_⟩
  rw [houtputs]
  simp

end ChunkAssembler

end Peerward.Directory
