import Peerward.Carrier.Fragments
import Peerward.Carrier.Records
import Peerward.Lib.Fields
import Peerward.Lib.Run

/-!
# Resumable frame readers

A record is read from a socket in as many pieces as the socket gives, by a future that may be dropped
at any of its reads. What was read stays in a buffer whose length says whether it is a prefix or a
whole frame. The process-local pipe and the reliable stream of a QUIC link have a loop of their own
each; both give the frames of the stream, whatever the pieces and however often they are restarted.
-/

namespace Peerward.Carrier

open Peerward.Lib Peerward.Wire Peerward.Relay

inductive ReadError where
  | invalidLength
  | unexpectedEof
  deriving DecidableEq

/-- The fields `frame` and `frame_read` of both readers. -/
structure FrameBuffer where
  frame : Bytes := [0, 0, 0, 0]
  frameRead : Nat := 0
  deriving DecidableEq

namespace FrameBuffer

def room (buffer : FrameBuffer) : Nat := buffer.frame.length - buffer.frameRead

/-- What was read of the frame so far. -/
def gathered (buffer : FrameBuffer) : Bytes := buffer.frame.take buffer.frameRead

/-- `count` bytes are read into the free part. -/
def fill (buffer : FrameBuffer) (got : Bytes) : FrameBuffer where
  frame := overwrite buffer.frame buffer.frameRead got
  frameRead := buffer.frameRead + got.length

/-- A complete prefix grows to a frame. -/
def grow (buffer : FrameBuffer) : FrameBuffer :=
  { buffer with frame := buffer.frame ++ List.replicate (announced buffer.frame) 0 }

end FrameBuffer

/-- What the socket gives: pieces in order, an empty one where the other side closed. A read takes
what fits of the first piece; without one it waits. -/
def readSocket (room : Nat) : List Bytes → Option (Bytes × List Bytes)
  | [] => none
  | piece :: pieces =>
    some (piece.take room, if piece.length ≤ room then pieces else piece.drop room :: pieces)

/-- Where a call of a reader stands when it returns, or is dropped while it waits. -/
abbrev Outcome := Except ReadError (Option Bytes) × FrameBuffer × List Bytes

theorem readSocket_lt {room : Nat} {pieces rest : List Bytes} {got : Bytes}
    (h : readSocket room pieces = some (got, rest)) (hgot : got ≠ []) :
    rest.flatten.length + rest.length < pieces.flatten.length + pieces.length := by
  cases pieces with
  | nil => cases h
  | cons piece pieces =>
      cases h
      split
      · simp only [List.flatten_cons, List.length_append, List.length_cons]
        omega
      · have hroom : 0 < (piece.take room).length := List.length_pos_iff.mpr hgot
        rw [List.length_take] at hroom
        simp only [List.flatten_cons, List.length_append, List.length_cons, List.length_drop]
        omega

/-- `RecordTransport::read_frame`, from where its buffer stands until it returns or waits. -/
def readFrame (buffer : FrameBuffer) (pieces : List Bytes) : Outcome :=
  if buffer.frameRead = buffer.frame.length ∧ buffer.frame.length ≠ 4 then
    (.ok (some buffer.frame), {}, pieces)
  else if buffer.frameRead = buffer.frame.length ∧
      (announced buffer.frame = 0 ∨ MAX_LOCAL_RECORD < announced buffer.frame) then
    (.error .invalidLength, buffer, pieces)
  else
    let buffer := if buffer.frameRead = buffer.frame.length then buffer.grow else buffer
    match _hread : readSocket buffer.room pieces with
    | none => (.ok none, buffer, pieces)
    | some (got, rest) =>
      if _hgot : got = [] then (.error .unexpectedEof, buffer, rest)
      else readFrame (buffer.fill got) rest
termination_by pieces.flatten.length + pieces.length
decreasing_by exact readSocket_lt _hread _hgot

/-- The reliable branch of `QuicLink::receive_inner`, up to the decoding of a complete record. -/
def receiveRecord (buffer : FrameBuffer) (pieces : List Bytes) : Outcome :=
  match _hread : readSocket buffer.room pieces with
  | none => (.ok none, buffer, pieces)
  | some (got, rest) =>
    if _hgot : got = [] then (.error .unexpectedEof, buffer, rest)
    else
      let buffer := buffer.fill got
      if buffer.frameRead ≠ buffer.frame.length then receiveRecord buffer rest
      else if buffer.frame.length = 4 then
        if announced buffer.frame = 0 ∨ MAX_FRAME < announced buffer.frame then
          (.error .invalidLength, buffer, rest)
        else receiveRecord buffer.grow rest
      else (.ok (some buffer.frame), { frame := buffer.frame.take 4 }, rest)
termination_by pieces.flatten.length + pieces.length
decreasing_by all_goals exact readSocket_lt _hread _hgot

/-! ## The buffer

The buffer is as long as what it waits for: four bytes for a prefix, the announced length behind them for a
frame. So its length alone says what has been read, and a dropped call loses nothing.
-/

namespace FrameBuffer

variable {buffer : FrameBuffer} {got : Bytes}

/-- A prefix, or a frame of which the prefix at least was read. -/
structure Valid (buffer : FrameBuffer) : Prop where
  bound : buffer.frameRead ≤ buffer.frame.length
  shape : buffer.frame.length = 4 ∨ (4 ≤ buffer.frameRead ∧ IsFrame MAX_LOCAL_RECORD buffer.frame)

theorem Valid.new {frame : Bytes} (h : frame.length = 4) : Valid { frame } := ⟨Nat.zero_le _, .inl h⟩

theorem gathered_new {frame : Bytes} : gathered { frame } = [] := List.take_zero

theorem length_fill (h : got.length ≤ buffer.room) (hvalid : buffer.Valid) :
    (buffer.fill got).frame.length = buffer.frame.length := by
  have hbound := hvalid.bound
  unfold room at h
  exact length_overwrite (by omega)

theorem gathered_fill (hvalid : buffer.Valid) :
    (buffer.fill got).gathered = buffer.gathered ++ got := by
  have hbound := hvalid.bound
  have hlength : (buffer.frame.take buffer.frameRead ++ got).length =
      buffer.frameRead + got.length := by
    rw [List.length_append, List.length_take, Nat.min_eq_left hbound]
  exact List.take_left' hlength

theorem announced_fill (h : 4 ≤ buffer.frameRead) (hvalid : buffer.Valid) :
    announced (buffer.fill got).frame = announced buffer.frame := by
  have hbound := hvalid.bound
  have hlong : 4 ≤ (buffer.frame.take buffer.frameRead).length := by
    rw [List.length_take, Nat.min_eq_left hbound]
    exact h
  show announced (_ ++ got ++ _) = _
  rw [List.append_assoc, announced_append hlong]
  conv_rhs => rw [← List.take_append_drop buffer.frameRead buffer.frame, announced_append hlong]

theorem Valid.fill (hvalid : buffer.Valid) (h : got.length ≤ buffer.room) :
    (buffer.fill got).Valid := by
  have hbound := hvalid.bound
  have hlength := length_fill h hvalid
  have hroom : (buffer.fill got).frameRead ≤ buffer.frame.length := by
    show buffer.frameRead + got.length ≤ _
    unfold room at h
    omega
  refine ⟨hroom.trans hlength.ge, hvalid.shape.imp hlength.trans ?_⟩
  rintro ⟨hfour, hpositive, hlimit, hsize⟩
  refine ⟨hfour.trans (Nat.le_add_right _ _), ?_⟩
  have hsame := @announced_fill _ got hfour hvalid
  exact ⟨hsame ▸ hpositive, hsame ▸ hlimit, by rw [hlength, hsame]; exact hsize⟩

theorem gathered_of_full (h : buffer.frameRead = buffer.frame.length) :
    buffer.gathered = buffer.frame := by
  unfold gathered
  rw [h, List.take_length]

theorem announced_grow (h : buffer.frame.length = 4) :
    announced buffer.grow.frame = announced buffer.frame := announced_append h.ge

/-- A prefix that announces a length in bounds grows into a buffer for its frame. -/
theorem Valid.grow (hfull : buffer.frameRead = buffer.frame.length) (hfour : buffer.frame.length = 4)
    (hlength : ¬ (announced buffer.frame = 0 ∨ MAX_LOCAL_RECORD < announced buffer.frame)) :
    buffer.grow.Valid ∧ buffer.grow.gathered = buffer.gathered ∧ 0 < buffer.grow.room := by
  have hsize : buffer.grow.frame.length = announced buffer.frame + 4 := by
    show (buffer.frame ++ _).length = _
    rw [List.length_append, List.length_replicate, hfour, Nat.add_comm]
  have hread : buffer.grow.frameRead = 4 := hfull.trans hfour
  refine ⟨⟨by omega, .inr ⟨hread.ge, ?_⟩⟩, ?_, ?_⟩
  · rw [IsFrame, announced_grow hfour, hsize]
    omega
  · show (buffer.frame ++ _).take buffer.frameRead = _
    rw [hfull, List.take_left, gathered_of_full hfull]
  · unfold room
    omega

theorem length_gathered (hvalid : buffer.Valid) : buffer.gathered.length = buffer.frameRead := by
  unfold gathered
  rw [List.length_take, Nat.min_eq_left hvalid.bound]

end FrameBuffer

/-! ## What follows a stream's frames

The frames of a byte stream end where a length is bad or where bytes are missing. These lemmas say which of
the two a reader finds behind the last frame.
-/

section Rest

variable {limit : Nat} {bytes : Bytes}

/-- Where a frame should start there is a length that no frame has. -/
def Malformed (limit : Nat) (bytes : Bytes) : Prop :=
  4 ≤ bytes.length ∧ (announced bytes = 0 ∨ limit < announced bytes)

theorem frames_eq_nil (h : nextFrame limit bytes = none) : frames limit bytes = [] := by
  unfold frames
  cases bytes.length with
  | zero => rfl
  | succ fuel => simp only [framesFrom, h]

theorem frames_of_malformed (h : Malformed limit bytes) : frames limit bytes = [] := by
  refine frames_eq_nil ?_
  cases hnext : nextFrame limit bytes with
  | none => rfl
  | some next =>
      obtain ⟨hframe, hbytes⟩ := nextFrame_eq_some hnext
      have hsame : announced bytes = announced next.1 := by
        rw [hbytes]
        exact announced_append hframe.four_le
      obtain ⟨hpositive, hlimit, -⟩ := hframe
      have hlength := h.2
      omega

theorem frames_of_short (h : bytes.length < 4) : frames limit bytes = [] := by
  refine frames_eq_nil ?_
  cases hnext : nextFrame limit bytes with
  | none => rfl
  | some next =>
      obtain ⟨hframe, hbytes⟩ := nextFrame_eq_some hnext
      have hfour := hframe.four_le
      rw [hbytes, List.length_append] at h
      omega

/-- What a reader holds between two frames is neither a frame nor the start of a bad one. -/
theorem FrameBuffer.frames_gathered {buffer : FrameBuffer} (hvalid : buffer.Valid)
    (hroom : 0 < buffer.room) :
    frames MAX_LOCAL_RECORD buffer.gathered = [] ∧ ¬ Malformed MAX_LOCAL_RECORD buffer.gathered := by
  have hbound := hvalid.bound
  have hlength := buffer.length_gathered hvalid
  unfold room at hroom
  rcases hvalid.shape with hfour | ⟨hfour, hframe⟩
  · refine ⟨frames_of_short (by omega), fun h => ?_⟩
    have := h.1
    omega
  · refine ⟨frames_of_incomplete hframe (by omega), fun h => ?_⟩
    have hsame : announced buffer.frame = announced buffer.gathered := by
      conv_lhs => rw [← List.take_append_drop buffer.frameRead buffer.frame]
      exact announced_append (hfour.trans hlength.ge)
    obtain ⟨hpositive, hlimit, -⟩ := hframe
    have := h.2
    omega

end Rest

/-! ## What one call does

A call reads until it has a frame, finds a bad length or an end, or has no more pieces. `ReadOff` is said
for both readers, and from here on they are not told apart.
-/

/-- What a call does with the bytes it was given: it returns the next frame, waits with all of them in
its buffer, or stops in front of a bad length or where the other side closed. -/
inductive ReadOff (buffer : FrameBuffer) (pieces : List Bytes) : Outcome → Prop
  | frame (frame : Bytes) (next : FrameBuffer) (rest : List Bytes)
      (hframe : IsFrame MAX_LOCAL_RECORD frame) (hvalid : next.Valid) (hroom : 0 < next.room)
      (hempty : next.gathered = []) (hclosed : [] ∈ rest → [] ∈ pieces)
      (hbytes : buffer.gathered ++ pieces.flatten = frame ++ rest.flatten) :
      ReadOff buffer pieces (.ok (some frame), next, rest)
  | waiting (next : FrameBuffer) (hvalid : next.Valid) (hroom : 0 < next.room)
      (hbytes : buffer.gathered ++ pieces.flatten = next.gathered) :
      ReadOff buffer pieces (.ok none, next, [])
  | invalid (next : FrameBuffer) (rest : List Bytes)
      (hbad : Malformed MAX_LOCAL_RECORD next.gathered)
      (hbytes : buffer.gathered ++ pieces.flatten = next.gathered ++ rest.flatten) :
      ReadOff buffer pieces (.error .invalidLength, next, rest)
  | ended (next : FrameBuffer) (rest : List Bytes) (hclosed : [] ∈ pieces)
      (hbytes : buffer.gathered ++ pieces.flatten = next.gathered ++ rest.flatten) :
      ReadOff buffer pieces (.error .unexpectedEof, next, rest)

section Calls

variable {buffer : FrameBuffer} {pieces rest : List Bytes} {got : Bytes} {room : Nat}

theorem readSocket_flatten (h : readSocket room pieces = some (got, rest)) :
    pieces.flatten = got ++ rest.flatten ∧ got.length ≤ room ∧
      (got = [] → 0 < room → [] ∈ pieces) ∧ ([] ∈ rest → 0 < room → [] ∈ pieces) := by
  cases pieces with
  | nil => cases h
  | cons piece pieces =>
      cases h
      refine ⟨?_, ?_, fun hgot hroom => ?_, fun hmem hroom => ?_⟩
      · split
        · next hfits =>
            rw [List.take_of_length_le hfits, List.flatten_cons]
        · rw [List.flatten_cons, List.flatten_cons, ← List.append_assoc, List.take_append_drop]
      · rw [List.length_take]
        exact Nat.min_le_left _ _
      · have hlength := congrArg List.length hgot
        rw [List.length_take, List.length_nil] at hlength
        rw [List.length_eq_zero_iff.mp (show piece.length = 0 by omega)]
        exact List.mem_cons_self ..
      · split at hmem
        · exact List.mem_cons_of_mem _ hmem
        · next hlong =>
            rcases List.mem_cons.mp hmem with hnil | hmem
            · have hlength := congrArg List.length hnil
              rw [List.length_drop, List.length_nil] at hlength
              omega
            · exact List.mem_cons_of_mem _ hmem

/-- A read into a buffer with room leaves the call with the same bytes to go through. -/
theorem ReadOff.of_fill {outcome : Outcome} (hvalid : buffer.Valid)
    (hsocket : readSocket buffer.room pieces = some (got, rest)) (hroom : 0 < buffer.room)
    {next : FrameBuffer} (hnext : next.gathered = (buffer.fill got).gathered)
    (h : ReadOff next rest outcome) : ReadOff buffer pieces outcome := by
  obtain ⟨hflat, -, -, hclosed⟩ := readSocket_flatten hsocket
  have hsame : buffer.gathered ++ pieces.flatten = next.gathered ++ rest.flatten := by
    rw [hnext, FrameBuffer.gathered_fill hvalid, hflat, List.append_assoc]
  cases h with
  | frame frame next' rest' hframe hvalid' hroom' hempty hmem hbytes =>
      exact .frame frame next' rest' hframe hvalid' hroom' hempty (fun h => hclosed (hmem h) hroom)
        (hsame.trans hbytes)
  | waiting next' hvalid' hroom' hbytes => exact .waiting next' hvalid' hroom' (hsame.trans hbytes)
  | invalid next' rest' hbad hbytes => exact .invalid next' rest' hbad (hsame.trans hbytes)
  | ended next' rest' hmem hbytes =>
      exact .ended next' rest' (hclosed hmem hroom) (hsame.trans hbytes)

/-- What comes before a read leaves a valid buffer with room and the same bytes. -/
theorem FrameBuffer.Valid.prepared (hvalid : buffer.Valid)
    (hframe : ¬ (buffer.frameRead = buffer.frame.length ∧ buffer.frame.length ≠ 4))
    (hlength : ¬ (buffer.frameRead = buffer.frame.length ∧
      (announced buffer.frame = 0 ∨ MAX_LOCAL_RECORD < announced buffer.frame))) {next : FrameBuffer}
    (hnext : next = if buffer.frameRead = buffer.frame.length then buffer.grow else buffer) :
    next.Valid ∧ next.gathered = buffer.gathered ∧ 0 < next.room := by
  split at hnext
  · next hfull =>
      have hfour : buffer.frame.length = 4 := by
        by_contra hne
        exact hframe ⟨hfull, hne⟩
      subst hnext
      exact Valid.grow hfull hfour fun h => hlength ⟨hfull, h⟩
  · next hpart =>
      have hbound := hvalid.bound
      subst hnext
      refine ⟨hvalid, rfl, ?_⟩
      unfold room
      omega

theorem ReadOff.of_gathered {next : FrameBuffer} {outcome : Outcome}
    (hnext : next.gathered = buffer.gathered) (h : ReadOff next pieces outcome) :
    ReadOff buffer pieces outcome := by
  cases h with
  | frame frame next' rest' hframe hvalid hroom hempty hmem hbytes =>
      exact .frame frame next' rest' hframe hvalid hroom hempty hmem (hnext ▸ hbytes)
  | waiting next' hvalid hroom hbytes => exact .waiting next' hvalid hroom (hnext ▸ hbytes)
  | invalid next' rest' hbad hbytes => exact .invalid next' rest' hbad (hnext ▸ hbytes)
  | ended next' rest' hmem hbytes => exact .ended next' rest' hmem (hnext ▸ hbytes)

/-- Without a piece to read the call waits. -/
theorem ReadOff.of_none (hvalid : buffer.Valid) (hroom : 0 < buffer.room)
    (hsocket : readSocket buffer.room pieces = none) :
    ReadOff buffer pieces (.ok none, buffer, pieces) := by
  cases pieces with
  | nil => exact .waiting buffer hvalid hroom (List.append_nil _)
  | cons piece pieces => cases hsocket

/-- An empty read means that the other side closed. -/
theorem ReadOff.of_empty (hroom : 0 < buffer.room)
    (hsocket : readSocket buffer.room pieces = some ([], rest)) :
    ReadOff buffer pieces (.error .unexpectedEof, buffer, rest) := by
  obtain ⟨hflat, -, hclosed, -⟩ := readSocket_flatten hsocket
  exact .ended buffer rest (hclosed rfl hroom) (by rw [hflat, List.nil_append])

theorem readFrame_readOff (hvalid : buffer.Valid) : ReadOff buffer pieces (readFrame buffer pieces) := by
  fun_induction readFrame buffer pieces with
  | case1 buffer pieces h =>
      refine .frame _ {} pieces (hvalid.shape.resolve_left h.2).2 (.new rfl) (by decide)
        FrameBuffer.gathered_new id ?_
      rw [FrameBuffer.gathered_of_full h.1]
  | case2 buffer pieces h hlength =>
      have hfour : buffer.frame.length = 4 := by
        by_contra hne
        exact h ⟨hlength.1, hne⟩
      have hgathered := FrameBuffer.gathered_of_full hlength.1
      refine .invalid buffer pieces ⟨?_, ?_⟩ rfl
      · rw [hgathered, hfour]
      · rw [hgathered]
        exact hlength.2
  | case3 buffer pieces hframe hlength next hsocket =>
      obtain ⟨hvalid', hsame, hroom⟩ := hvalid.prepared hframe hlength (show next = _ from rfl)
      exact .of_gathered hsame (.of_none hvalid' hroom hsocket)
  | case4 buffer pieces hframe hlength next rest hsocket =>
      obtain ⟨hvalid', hsame, hroom⟩ := hvalid.prepared hframe hlength (show next = _ from rfl)
      exact .of_gathered hsame (.of_empty hroom hsocket)
  | case5 buffer pieces hframe hlength next got rest hsocket hgot ih =>
      obtain ⟨hvalid', hsame, hroom⟩ := hvalid.prepared hframe hlength (show next = _ from rfl)
      have hfits := (readSocket_flatten hsocket).2.1
      exact .of_gathered hsame (.of_fill hvalid' hsocket hroom rfl (ih (hvalid'.fill hfits)))

theorem receiveRecord_readOff (hvalid : buffer.Valid) (hroom : 0 < buffer.room) :
    ReadOff buffer pieces (receiveRecord buffer pieces) := by
  fun_induction receiveRecord buffer pieces with
  | case1 buffer pieces hsocket => exact .of_none hvalid hroom hsocket
  | case2 buffer pieces rest hsocket => exact .of_empty hroom hsocket
  | case3 buffer pieces got rest hsocket hgot next hpart ih =>
      have hvalid' := hvalid.fill (readSocket_flatten hsocket).2.1
      refine .of_fill hvalid hsocket hroom rfl (ih hvalid' ?_)
      have hbound := hvalid'.bound
      exact Nat.sub_pos_of_lt (Nat.lt_of_le_of_ne hbound hpart)
  | case4 buffer pieces got rest hsocket hgot next hfull hfour hlength =>
      have hgathered := FrameBuffer.gathered_of_full (not_not.mp hfull)
      refine .of_fill hvalid hsocket hroom rfl (.invalid next rest ⟨?_, ?_⟩ rfl)
      · rw [hgathered, hfour]
      · rw [hgathered]
        exact hlength
  | case5 buffer pieces got rest hsocket hgot next hfull hfour hlength ih =>
      obtain ⟨hvalid', hsame, hroom'⟩ := FrameBuffer.Valid.grow (not_not.mp hfull) hfour hlength
      exact .of_fill hvalid hsocket hroom hsame (ih hvalid' hroom')
  | case6 buffer pieces got rest hsocket hgot next hfull hlong =>
      have hvalid' := hvalid.fill (readSocket_flatten hsocket).2.1
      have hframe := (hvalid'.shape.resolve_left hlong).2
      have hfour : (next.frame.take 4).length = 4 := by
        rw [List.length_take, Nat.min_eq_left hframe.four_le]
      refine .of_fill hvalid hsocket hroom rfl
        (.frame _ _ rest hframe (.new hfour) ?_ FrameBuffer.gathered_new id ?_)
      · show 0 < (next.frame.take 4).length - 0
        omega
      · rw [FrameBuffer.gathered_of_full (not_not.mp hfull)]

end Calls

/-! ## Any number of calls

`At` is the place of a reader in the bytes that have arrived: the frames before it were returned, and what
it holds is the start of the rest. A call with nothing new moves it by one frame, so enough calls return
all of them.
-/

inductive Reader where
  /-- `RecordTransport` on the process-local pipe. -/
  | pipe
  /-- The reliable stream of a `QuicLink`. -/
  | link
  deriving DecidableEq

def Reader.read : Reader → FrameBuffer → List Bytes → Outcome
  | pipe => readFrame
  | link => receiveRecord

theorem Reader.reads (reader : Reader) {buffer : FrameBuffer} {pieces : List Bytes}
    (hvalid : buffer.Valid) (hroom : 0 < buffer.room) :
    ReadOff buffer pieces (reader.read buffer pieces) := by
  cases reader with
  | pipe => exact readFrame_readOff hvalid
  | link => exact receiveRecord_readOff hvalid hroom

/-- The owner of a reader, which an error ends. -/
structure RecordStream where
  buffer : FrameBuffer := {}
  unread : List Bytes := []
  returned : List Bytes := []
  stopped : Option ReadError := none
  deriving DecidableEq

namespace RecordStream

/-- One call after more pieces have arrived. A dropped call leaves what it read; the next one starts
from there. -/
def call (reader : Reader) (s : RecordStream) (arrived : List Bytes) : RecordStream :=
  if s.stopped.isSome then s
  else match reader.read s.buffer (s.unread ++ arrived) with
    | (.ok (some frame), buffer, unread) =>
      { s with buffer, unread, returned := s.returned ++ [frame] }
    | (.ok none, buffer, unread) => { s with buffer, unread }
    | (.error failure, buffer, unread) => { s with buffer, unread, stopped := some failure }

variable {reader : Reader} {s : RecordStream} {pieces arrived : List Bytes}

/-- Where a stream stands in what has arrived. -/
inductive At (pieces : List Bytes) : RecordStream → Prop
  | reading (buffer : FrameBuffer) (unread returned : List Bytes)
      (hframes : ∀ frame ∈ returned, IsFrame MAX_LOCAL_RECORD frame) (hvalid : buffer.Valid)
      (hroom : 0 < buffer.room) (hclosed : [] ∈ unread → [] ∈ pieces)
      (hstream : pieces.flatten = returned.flatten ++ (buffer.gathered ++ unread.flatten)) :
      At pieces ⟨buffer, unread, returned, none⟩
  | malformed (buffer : FrameBuffer) (unread returned : List Bytes) (rest : Bytes)
      (hframes : ∀ frame ∈ returned, IsFrame MAX_LOCAL_RECORD frame)
      (hbad : Malformed MAX_LOCAL_RECORD rest)
      (hstream : pieces.flatten = returned.flatten ++ rest) :
      At pieces ⟨buffer, unread, returned, some .invalidLength⟩
  | closed (buffer : FrameBuffer) (unread returned : List Bytes) (rest : Bytes)
      (hframes : ∀ frame ∈ returned, IsFrame MAX_LOCAL_RECORD frame) (hclosed : [] ∈ pieces)
      (hstream : pieces.flatten = returned.flatten ++ rest) :
      At pieces ⟨buffer, unread, returned, some .unexpectedEof⟩

/-- All frames of the stream were returned, and a bad length after them was reported. -/
structure Settled (pieces : List Bytes) (s : RecordStream) : Prop where
  returned : s.returned = frames MAX_LOCAL_RECORD pieces.flatten
  stopped : s.stopped = some .invalidLength ↔
    Malformed MAX_LOCAL_RECORD (pieces.flatten.drop s.returned.flatten.length)
  opened : s.stopped ≠ some .unexpectedEof

theorem malformed_append {limit : Nat} {front back : Bytes} (h : Malformed limit front) :
    Malformed limit (front ++ back) := by
  refine ⟨h.1.trans ?_, ?_⟩
  · rw [List.length_append]
    exact Nat.le_add_right _ _
  · rw [announced_append h.1]
    exact h.2

/-- One more call keeps its place, and returns a frame or has returned them all. -/
theorem At.call (h : At pieces s) :
    At (pieces ++ arrived) (s.call reader arrived) ∧
      (s.returned.length + 1 ≤ (s.call reader arrived).returned.length ∨
        [] ∈ pieces ++ arrived ∨ Settled (pieces ++ arrived) (s.call reader arrived)) := by
  cases h with
  | closed buffer unread returned rest hframes hclosed hstream =>
      have hmem := List.mem_append_left arrived hclosed
      refine ⟨.closed buffer unread returned (rest ++ arrived.flatten) hframes hmem ?_, .inr (.inl hmem)⟩
      rw [List.flatten_append, hstream, List.append_assoc]
  | malformed buffer unread returned rest hframes hbad hstream =>
      -- the bad length stays in front of whatever arrives
      have hmore : (pieces ++ arrived).flatten = returned.flatten ++ (rest ++ arrived.flatten) := by
        rw [List.flatten_append, hstream, List.append_assoc]
      have hbad' := @malformed_append _ _ arrived.flatten hbad
      refine ⟨.malformed buffer unread returned _ hframes hbad' hmore, .inr (.inr ⟨?_, ?_, nofun⟩)⟩
      · show returned = _
        rw [hmore, frames_flatten hframes, frames_of_malformed hbad', List.append_nil]
      · refine iff_of_true rfl ?_
        show Malformed _ (List.drop returned.flatten.length _)
        rw [hmore, List.drop_left]
        exact hbad'
  | reading buffer unread returned hframes hvalid hroom hclosed hstream =>
      have hreads := @Reader.reads reader _ (unread ++ arrived) hvalid hroom
      have hmore : (pieces ++ arrived).flatten =
          returned.flatten ++ (buffer.gathered ++ (unread ++ arrived).flatten) := by
        rw [List.flatten_append, List.flatten_append, hstream, List.append_assoc, List.append_assoc]
      have hmem : [] ∈ unread ++ arrived → [] ∈ pieces ++ arrived := by
        rw [List.mem_append, List.mem_append]
        exact Or.imp_left hclosed
      unfold RecordStream.call
      dsimp only [Option.isSome_none]
      rw [if_neg Bool.false_ne_true]
      generalize reader.read buffer (unread ++ arrived) = outcome at hreads ⊢
      cases hreads with
      | frame frame next rest hframe hvalid' hroom' hempty hleft hbytes =>
          refine ⟨.reading next rest (returned ++ [frame]) ?_ hvalid' hroom' ?_ ?_, .inl ?_⟩
          · intro found hfound
            rcases List.mem_append.mp hfound with hfound | hfound
            · exact hframes found hfound
            · rw [List.mem_singleton.mp hfound]
              exact hframe
          · exact fun h => hmem (hleft h)
          · rw [hmore, hbytes, hempty, List.flatten_append, List.append_assoc]
            simp
          · simp
      | waiting next hvalid' hroom' hbytes =>
          -- what the reader holds is no frame yet, and not the start of a bad one
          obtain ⟨hnone, hgood⟩ := FrameBuffer.frames_gathered hvalid' hroom'
          rw [hbytes] at hmore
          refine ⟨.reading next [] returned hframes hvalid' hroom' nofun ?_, .inr (.inr ⟨?_, ?_, nofun⟩)⟩
          · rw [hmore, List.flatten_nil, List.append_nil]
          · show returned = _
            rw [hmore, frames_flatten hframes, hnone, List.append_nil]
          · refine iff_of_false nofun ?_
            show ¬ Malformed _ (List.drop returned.flatten.length _)
            rw [hmore, List.drop_left]
            exact hgood
      | invalid next rest hbad hbytes =>
          have hbad' := @malformed_append _ _ rest.flatten hbad
          rw [hbytes] at hmore
          refine ⟨.malformed next rest returned _ hframes hbad' hmore, .inr (.inr ⟨?_, ?_, nofun⟩)⟩
          · show returned = _
            rw [hmore, frames_flatten hframes, frames_of_malformed hbad', List.append_nil]
          · refine iff_of_true rfl ?_
            show Malformed _ (List.drop returned.flatten.length _)
            rw [hmore, List.drop_left]
            exact hbad'
      | ended next rest hended hbytes =>
          rw [hbytes] at hmore
          exact ⟨.closed next rest returned _ hframes (hmem hended) hmore, .inr (.inl (hmem hended))⟩

theorem At.returned_initial (h : At pieces s) :
    s.returned <+: frames MAX_LOCAL_RECORD pieces.flatten := by
  cases h with
  | reading buffer unread returned hframes hvalid hroom hclosed hstream =>
      rw [hstream, frames_flatten hframes]
      exact List.prefix_append ..
  | malformed buffer unread returned rest hframes hbad hstream =>
      rw [hstream, frames_flatten hframes]
      exact List.prefix_append ..
  | closed buffer unread returned rest hframes hclosed hstream =>
      rw [hstream, frames_flatten hframes]
      exact List.prefix_append ..

theorem at_calls (reader : Reader) (calls : List (List Bytes)) :
    At calls.flatten (exec (call reader) {} calls) := by
  induction calls using List.reverseRecOn with
  | nil => exact .reading {} [] [] nofun (.new rfl) (by decide) id rfl
  | append_singleton calls arrived ih =>
      rw [exec_concat, List.flatten_concat]
      exact ih.call.1

/-- Calls that find nothing new return one frame each until all are returned. -/
theorem At.polls (h : At pieces s) (hopen : [] ∉ pieces) (n : Nat) :
    At pieces (exec (RecordStream.call reader) s (List.replicate n [])) ∧
      (n ≤ (exec (RecordStream.call reader) s (List.replicate n [])).returned.length ∨
        Settled pieces (exec (RecordStream.call reader) s (List.replicate n []))) := by
  induction n with
  | zero => exact ⟨h, .inl (Nat.zero_le _)⟩
  | succ n ih =>
      rw [List.replicate_succ', exec_concat]
      generalize exec (RecordStream.call reader) s (List.replicate n []) = s' at ih ⊢
      obtain ⟨hat, hcount⟩ := ih
      obtain ⟨hat', hnext⟩ := @At.call reader _ _ [] hat
      rw [List.append_nil] at hat' hnext
      refine ⟨hat', ?_⟩
      rcases hnext with hmore | hclosed | hsettled
      · rcases hcount with hcount | hsettled
        · exact .inl (hcount.trans_lt hmore)
        · -- all frames were returned already
          have hall := hat'.returned_initial.length_le
          rw [← hsettled.returned] at hall
          omega
      · exact absurd hclosed hopen
      · exact .inr hsettled

/-- **Framing is exact under any segmentation and cancellation.** Whatever the pieces a stream arrives
in and however often a call is dropped or returns, each reader has returned the first frames of the
stream; and once it was called often enough it has returned exactly the frames of the stream and
reported a length of zero, or one too large, where a frame should follow them. -/
theorem readers_exact (reader : Reader) (calls : List (List Bytes)) :
    (exec (call reader) {} calls).returned <+: frames MAX_LOCAL_RECORD calls.flatten.flatten ∧
      ([] ∉ calls.flatten → ∀ n, (frames MAX_LOCAL_RECORD calls.flatten.flatten).length ≤ n →
        Settled calls.flatten
          (exec (call reader) {} (calls ++ List.replicate (n + 1) []))) := by
  have hat := at_calls reader calls
  refine ⟨hat.returned_initial, fun hopen n hn => ?_⟩
  rw [exec_append]
  obtain ⟨hlast, hcount | hsettled⟩ := @At.polls reader _ _ hat hopen (n + 1)
  · have hall := hlast.returned_initial.length_le
    omega
  · exact hsettled

def keepalives : List ControlEnvelope := [{ message := some (.keepalive 1) }, { message := some (.keepalive 2) }]

/-- The bytes of both, cut inside the first prefix and inside the second body. -/
def cut : List (List Bytes) :=
  let bytes := (keepalives.map localFrame).flatten
  [[bytes.take 3], [], [(bytes.drop 3).take 18, bytes.drop 21]]

end RecordStream

end Peerward.Carrier
