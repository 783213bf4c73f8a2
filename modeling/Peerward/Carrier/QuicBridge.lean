import Peerward.Carrier.QuicLink
import Peerward.Carrier.Records
import Peerward.Lib.Channel
import Peerward.Lib.Run

/-!
# The QUIC record bridge

`run` moves records between the pipe of an application and a QUIC link. Each branch of its `select!` is
a step, and so is each call of the application on its end of the pipe, except that `poll_write` is two: the
run goes on between its write to the pipe and its count of the bytes. The reliable stream is everything
one end has written and how much of it the other end has taken; a datagram that was handed to the
channel may arrive never, once or many times. A deadline, an exhausted transport or a dropped task may end
the run at any step.
-/

namespace Peerward.Carrier

open Peerward.Lib Peerward.Wire Peerward.Relay
open Peerward.Types (RelayId)

/-- The capacity of the pipe in each direction. -/
def PIPE : Nat := 65536

def MAX_WAITING : Nat := 32

/-- A record taken from the application. -/
structure Written where
  finish : Nat
  receipt : Option Nat

/-- A frame on its way to the application. -/
structure Pending where
  bytes : Bytes
  offset : Nat
  receipt : Option Nat

def Pending.remaining (frame : Pending) : Nat := frame.bytes.length - frame.offset

structure Progress where
  written : Nat := 0
  flushed : Nat := 0
  ended : Bool := false
  closed : Bool := false

structure Bridge where
  link : QuicLink
  input : Channel UInt8 := .empty
  output : Channel UInt8 := .empty
  /-- The application has closed its writing half. -/
  shut : Bool := false
  progress : Progress := {}
  /-- What a `poll_write` under way has put into the pipe and not yet added to `progress.written`. -/
  uncounted : Nat := 0
  /-- What has been read of the next record, or of its prefix. -/
  frame : Bytes := []
  size : Nat := 4
  written : Nat := 0
  waiting : List Written := []
  pending : List Pending := []
  nextProbe : Nat := 0
  probe : Option Nat := none
  missed : Nat := 0
  lastPing : Nat := 0
  /-- Everything written to the reliable stream. -/
  streamed : List LinkRecord := []
  /-- How much of the other end's stream has been taken. -/
  streamRead : Nat := 0
  /-- The data records that were handed to the datagram channel or dropped. -/
  datagrams : List ControlEnvelope := []

namespace Bridge

/-- The run returns; what it had put into the pipe and the stream stays. -/
def finish (b : Bridge) : Bridge := { b with progress := { b.progress with ended := true } }

/-- `?` in a branch of the run. -/
def orFinish (b : Bridge) (next : Option Bridge) : Bridge := next.getD b.finish

def inputFree (b : Bridge) : Nat := PIPE - b.input.queue.length

def outputFree (b : Bridge) : Nat := PIPE - b.output.queue.length

/-! ## From the application to the link

A record is read in two parts, its prefix and its body, each by an exact read that keeps what it got. What
is taken is sent at once and remembered until everything before it is acknowledged.
-/

/-- Entries that wait for nothing leave the front of the queue. -/
def settle : List Written → (flushed : Nat) → List Written × Nat
  | ⟨finish, none⟩ :: waiting, _ => settle waiting finish
  | waiting, flushed => (waiting, flushed)

def settled (b : Bridge) : Bridge :=
  { b with
    waiting := (settle b.waiting b.progress.flushed).1
    progress := { b.progress with flushed := (settle b.waiting b.progress.flushed).2 } }

/-- The record in `frame` is done with, up to its receipt. -/
def enter (b : Bridge) (receipt : Option Nat) : Bridge :=
  settled
    { b with
      written := b.written + b.frame.length
      waiting := b.waiting ++ [⟨b.written + b.frame.length, receipt⟩]
      frame := []
      size := 4 }

/-- A session frame becomes a datagram, anything else a numbered control record. -/
def forward (decode : EnvelopeDecoder) (b : Bridge) (control : ControlEnvelope) (fails : Bool) :
    Option Bridge :=
  match opaqueFrame decode control with
  | .error _ => none
  | .ok (some _) =>
    if fails || !(b.link.validateData decode control true).isOk then none
    else some (enter { b with datagrams := b.datagrams ++ [control] } none)
  | .ok none => match b.link.sendControl decode control with
    | .error _ => none
    | .ok (link, record) =>
      if fails then none
      else some (enter { b with link, streamed := b.streamed ++ [record] } (some link.sentControl))

/-- The prefix, or the whole record, is there. -/
def takeFrame (decode : EnvelopeDecoder) (b : Bridge) (fails : Bool) : Option Bridge :=
  if b.size = 4 then
    if ofBE b.frame = 0 || 65535 < ofBE b.frame then none else some { b with size := ofBE b.frame + 4 }
  else match decodeLocal decode b.frame with
    | .ok (.control control) => b.forward decode control fails
    | _ => none

/-- The branch that reads from the application. -/
def readInput (decode : EnvelopeDecoder) (b : Bridge) (count : Nat) (fails : Bool) : Bridge :=
  let size := min count (b.size - b.frame.length)
  let read := { b with input := b.input.take size, frame := b.frame ++ b.input.queue.take size }
  if MAX_WAITING ≤ b.waiting.length then b
  else if b.input.queue.isEmpty then
    if !b.shut then b
    else if !b.frame.isEmpty || !b.waiting.isEmpty then b.finish
    else { b with progress := { b.progress with closed := true, ended := true } }
  else if read.frame.length = b.size then read.orFinish (read.takeFrame decode fails)
  else read

/-! ## From the link to the application

Nothing is read from the link while two frames are on their way to the application. A datagram is a frame
without a receipt; of the reliable stream only controls are owed one.
-/

/-- One more frame for the application. -/
def push (b : Bridge) (control : ControlEnvelope) (receipt : Option Nat) : Option Bridge :=
  match encodeLocal (.control control) with
  | .error _ => none
  | .ok bytes => some { b with pending := b.pending ++ [⟨bytes, 0, receipt⟩] }

def answered (sequence : Nat) (entry : Written) : Written :=
  { entry with receipt := entry.receipt.filter (sequence < ·) }

/-- What comes from the stream, apart from the bytes of the control it may carry. -/
def handle (b : Bridge) (received : Received) (fails : Bool) : Option Bridge :=
  match received with
  | .ping sequence =>
    if fails || sequence ≤ b.lastPing then none
    else some { b with lastPing := sequence, streamed := b.streamed ++ [.heartbeat sequence true] }
  | .pong sequence => if b.probe = some sequence then some { b with probe := none, missed := 0 } else some b
  | .acknowledged sequence => some (settled { b with waiting := b.waiting.map (answered sequence) })
  | .control control => b.push control (some b.link.receivedControl)

/-- The branch that reads the link: its reliable stream. -/
def receive (decode : EnvelopeDecoder) (b other : Bridge) (fails : Bool) : Bridge :=
  if 2 ≤ b.pending.length then b
  else match other.streamed[b.streamRead]? with
    | none => b
    | some record => match b.link.unwrapControl decode (record.envelope other.link.meshId) with
      | .error _ => b.finish
      | .ok (link, received) =>
        b.orFinish (handle { b with link, streamRead := b.streamRead + 1 } received fails)

/-- The same branch, when a datagram is complete; under backpressure none is read. -/
def receiveData (decode : EnvelopeDecoder) (b other : Bridge) (index : Nat) (fails : Bool) : Bridge :=
  if !b.pending.isEmpty then b
  else match other.datagrams[index]? with
    | none => b
    | some sent => match decode sent.encode with
      | none => b.finish
      | some control =>
        if fails || control.encode ≠ sent.encode || !(b.link.validateData decode control false).isOk then
          b.finish
        else b.orFinish (b.push control none)

/-- The branch that writes to the application. -/
def deliver (b : Bridge) (count : Nat) (fails : Bool) : Bridge :=
  match b.pending with
  | [] => b
  | front :: rest =>
    let size := min count (min front.remaining b.outputFree)
    let output := b.output.put (slice front.bytes front.offset (front.offset + size))
    if size = 0 then b
    else if front.offset + size = front.bytes.length then
      match front.receipt with
      | none => { b with output, pending := rest }
      | some sequence =>
        if fails then finish { b with output, pending := rest }
        else { b with output, pending := rest, streamed := b.streamed ++ [.receipt sequence] }
    else { b with output, pending := { front with offset := front.offset + size } :: rest }

/-! ## Heartbeats -/

def sendProbe (b : Bridge) (due fails : Bool) : Bridge :=
  if b.probe.isNone && due then
    if fails || 2 ^ 64 ≤ b.nextProbe + 1 then b.finish
    else
      { b with
        nextProbe := b.nextProbe + 1
        probe := some (b.nextProbe + 1)
        streamed := b.streamed ++ [.heartbeat (b.nextProbe + 1) false] }
  else b

/-- The branch of the timer: a probe may be overdue, and the next one may be due. -/
def sweep (b : Bridge) (overdue due fails : Bool) : Bridge :=
  if b.probe.isSome && overdue then
    if 2 ≤ b.missed + 1 then b.finish
    else sendProbe { b with probe := none, missed := b.missed + 1 } due fails
  else b.sendProbe due fails

/-! ## The application

The other end of the pipe. `poll_flush` is ready when the counter of flushed bytes has reached the counter
of written ones; the two are updated by different tasks.
-/

inductive Poll where
  | ready
  | pending
  | brokenPipe
  deriving DecidableEq

def pollFlush (b : Bridge) : Poll :=
  if b.progress.written ≤ b.progress.flushed then .ready
  else if b.progress.ended then .brokenPipe
  else .pending

/-- A call takes `&mut self`, so none is made before the last `poll_write` has returned. -/
def writing (b : Bridge) : Bool := 0 < b.uncounted

/-- `poll_write`, up to its `fetch_add`: as much as the pipe takes. -/
def write (b : Bridge) (bytes : Bytes) : Bridge :=
  if b.writing || b.progress.ended || b.shut then b
  else
    { b with
      input := b.input.put (bytes.take b.inputFree)
      uncounted := (bytes.take b.inputFree).length }

/-- The `fetch_add` of `poll_write`. The run may take what is in the pipe before it. -/
def countWritten (b : Bridge) : Bridge :=
  { b with
    progress := { b.progress with written := b.progress.written + b.uncounted }
    uncounted := 0 }

def read (b : Bridge) (count : Nat) : Bridge :=
  if b.writing then b else { b with output := b.output.take count }

/-- `poll_shutdown` waits for the flush. -/
def shutdown (b : Bridge) : Bridge :=
  if !b.writing && b.pollFlush = .ready then { b with shut := true } else b

end Bridge

/-! ## Two ends -/

inductive BridgeStep where
  | write (bytes : Bytes)
  | countWritten
  | read (count : Nat)
  | shutdown
  | readInput (count : Nat) (fails : Bool)
  | receive (fails : Bool)
  | receiveData (index : Nat) (fails : Bool)
  | deliver (count : Nat) (fails : Bool)
  | sweep (overdue due fails : Bool)
  | abort

/-- The application may go on reading after the run has ended. -/
def BridgeStep.isCall : BridgeStep → Bool
  | .write _ | .countWritten | .read _ | .shutdown => true
  | _ => false

def Bridge.step (decode : EnvelopeDecoder) (b other : Bridge) (step : BridgeStep) : Bridge :=
  if b.progress.ended && !step.isCall then b
  else match step with
    | .write bytes => b.write bytes
    | .countWritten => b.countWritten
    | .read count => b.read count
    | .shutdown => b.shutdown
    | .readInput count fails => b.readInput decode count fails
    | .receive fails => b.receive decode other fails
    | .receiveData index fails => b.receiveData decode other index fails
    | .deliver count fails => b.deliver count fails
    | .sweep overdue due fails => b.sweep overdue due fails
    | .abort => b.finish

structure Bridges where
  left : Bridge
  right : Bridge

inductive Side where
  | left
  | right
  deriving DecidableEq

namespace Bridges

def step (decode : EnvelopeDecoder) (s : Bridges) : Side × BridgeStep → Bridges
  | (.left, event) => { s with left := s.left.step decode s.right event }
  | (.right, event) => { s with right := s.right.step decode s.left event }

/-- Two admitted ends of one Mesh, of which `left` dialled. -/
def start (meshId : Bytes) (source dialled : Option RelayId) : Bridges where
  left := { link := { meshId, source := dialled, client := true } }
  right := { link := { meshId, source, client := false } }

end Bridges

/-! ## What an application writes and reads -/

/-- A control record, which the other end has to acknowledge. -/
def isControl (decode : EnvelopeDecoder) (control : ControlEnvelope) : Bool :=
  match opaqueFrame decode control with
  | .ok none => true
  | _ => false

def isData (decode : EnvelopeDecoder) (control : ControlEnvelope) : Bool :=
  match opaqueFrame decode control with
  | .ok (some _) => true
  | _ => false

def recordOf (decode : EnvelopeDecoder) (frame : Bytes) : Option ControlEnvelope :=
  match decodeLocal decode frame with
  | .ok (.control control) => some control
  | _ => none

/-- The records in the bytes of a pipe. -/
def recordsIn (decode : EnvelopeDecoder) (bytes : Bytes) : List ControlEnvelope :=
  (frames MAX_LOCAL_RECORD bytes).filterMap (recordOf decode)

def controlsIn (decode : EnvelopeDecoder) (bytes : Bytes) : List ControlEnvelope :=
  (recordsIn decode bytes).filter (isControl decode)

def dataIn (decode : EnvelopeDecoder) (bytes : Bytes) : List ControlEnvelope :=
  (recordsIn decode bytes).filter (isData decode)

def LinkRecord.receipt? : LinkRecord → Option Nat
  | .receipt sequence => some sequence
  | _ => none

def LinkRecord.record? : LinkRecord → Option (ControlEnvelope × Nat)
  | .record sequence control => some (control, sequence)
  | _ => none

end Peerward.Carrier
