import Mathlib.Tactic

/-!
# Streams: the object and its send buffer

The fields of `Stream` that sending, receiving and 0-RTT reversal read or write, and
the functions of `stream.cpp` that work on the send buffer. The counters are unsigned
in the source, so a subtraction that would wrap is a `Fault`, as are a failed assertion
and a container access out of range.

Watermark callbacks are application code that runs in the middle of these functions
and may send more data. What one invocation does is a `Reaction`: a list of sends, each
with the reaction of any callback that send triggers in turn.
-/
namespace Libquic

abbrev Bytes := List UInt8

/-- What the modelled code must never do. -/
inductive Fault where
  | assertion | underflow | outOfRange | nullPointer | divergence | danglingIterator
  deriving DecidableEq, Repr

/-- Unsigned subtraction, faulting where the source would wrap around. -/
def checkedSub (a b : Nat) : Except Fault Nat :=
  if b ≤ a then .ok (a - b) else .error .underflow

theorem checkedSub_ok {a b : Nat} (h : b ≤ a) : checkedSub a b = .ok (a - b) := if_pos h

theorem checkedSub_eq_ok {a b c : Nat} (h : checkedSub a b = .ok c) : b ≤ a ∧ c = a - b := by
  unfold checkedSub at h
  split at h
  · exact ⟨‹_›, (Except.ok.inj h).symm⟩
  · cases h

/-- The owner of a buffer's memory, by identity; `none` is a null pointer. -/
abbrev KeepAlive := Option Nat

/-- An element of `user_buffers`: the bytes still referenced, and their owner. -/
structure Buffer where
  data : Bytes
  keepAlive : KeepAlive
  deriving DecidableEq, Repr

def Buffer.size (b : Buffer) : Nat := b.data.length

structure Stream where
  userBuffers : List Buffer := []
  unsentSize : Nat := 0
  unackedSize : Nat := 0
  ackedBytes : Nat := 0
  currentBufferIndex : Nat := 0
  currentBufferOffset : Nat := 0
  frontTrimmed : Nat := 0
  isClosing : Bool := false
  sendFin : Bool := false
  sentFin : Bool := false
  receivedFin : Bool := false
  ready : Bool := false
  paused : Bool := false
  notify : Bool := false
  hadNotify : Bool := false
  streamId : Int := -2
  pausedOffset : Nat := 0
  /-- The alarm and the all-clear threshold. -/
  watermarking : Option (Nat × Nat) := none
  watermarkAlarm : Bool := false
  /-- Every buffer `send_impl` has accepted, in order. A history variable: nothing reads it. -/
  accepted : List Buffer := []
  deriving DecidableEq, Repr

/-- What a watermark callback does: sends, in order, each with the reaction of the
callback that it may trigger itself. -/
inductive Reaction where
  | done
  | send (data : Bytes) (keepAlive : KeepAlive) (inner next : Reaction)
  deriving DecidableEq, Repr

namespace Stream

/-- Flips the alarm if a threshold has been crossed, and then runs the callback. -/
def checkWatermark (callback : Stream → Stream) (s : Stream) : Stream :=
  match s.watermarking with
  | none => s
  | some (alarmThresh, clearThresh) =>
    if s.watermarkAlarm then
      if s.unsentSize ≤ clearThresh then callback { s with watermarkAlarm := false } else s
    else if alarmThresh ≤ s.unsentSize then callback { s with watermarkAlarm := true }
    else s

def appendBuffer (callback : Stream → Stream) (s : Stream) (buffer : Buffer) : Stream :=
  checkWatermark callback
    { s with
      unsentSize := s.unsentSize + buffer.size
      userBuffers := s.userBuffers ++ [buffer] }

/-- Whether `send_impl` queues the data rather than dropping it. `connOpen` says that
the connection is there and neither closing nor draining. -/
def accepts (s : Stream) (connOpen : Bool) (data : Bytes) : Bool :=
  !data.isEmpty && !(s.isClosing || s.sendFin || s.sentFin) && connOpen

def sendImpl (connOpen : Bool) (callback : Stream → Stream) (s : Stream) (buffer : Buffer) :
    Stream :=
  if s.accepts connOpen buffer.data then
    appendBuffer callback { s with accepted := s.accepted ++ [buffer] } buffer
  else s

/-- Run a watermark callback. -/
def react (connOpen : Bool) : Reaction → Stream → Stream
  | .done, s => s
  | .send data keepAlive inner next, s =>
    react connOpen next (sendImpl connOpen (react connOpen inner) s ⟨data, keepAlive⟩)

/-- The loop of `acknowledge` that releases fully acked buffers. Returns the acked
bytes left over, the buffers, the trim counter and the send index. -/
def releaseAcked (bytes : Nat) :
    List Buffer → Nat → Nat → Except Fault (Nat × List Buffer × Nat × Nat)
  | [], trimmed, index =>
    if bytes = 0 then .ok (0, [], trimmed, index) else .error .outOfRange
  | b :: rest, trimmed, index =>
    if bytes ≠ 0 ∧ b.size ≤ bytes then
      if 0 < index then releaseAcked (bytes - b.size) rest 0 (index - 1) else .error .assertion
    else .ok (bytes, b :: rest, trimmed, index)

/-- Chop the leading `bytes` off the front buffer. -/
def trimFront (bytes : Nat) : List Buffer → List Buffer
  | [] => []
  | b :: rest => { b with data := b.data.drop bytes } :: rest

def acknowledge (s : Stream) (bytes : Nat) : Except Fault Stream := do
  if s.unackedSize < bytes then throw .assertion
  let unacked ← checkedSub s.unackedSize bytes
  let (left, bufs, trimmed, index) ←
    releaseAcked bytes s.userBuffers s.frontTrimmed s.currentBufferIndex
  let s := { s with
    unackedSize := unacked, ackedBytes := s.ackedBytes + bytes
    userBuffers := bufs, frontTrimmed := trimmed, currentBufferIndex := index }
  if left = 0 then return s
  let s := { s with userBuffers := trimFront left bufs, frontTrimmed := trimmed + left }
  if index = 0 then
    if s.currentBufferOffset < left then throw .assertion
    return { s with currentBufferOffset := s.currentBufferOffset - left }
  return s

/-- The loop of `wrote`, over the buffers from the send index on. -/
def advance (bytes : Nat) : List Buffer → Nat → Nat → Except Fault (Nat × Nat)
  | [], index, offset => .ok (index, offset)
  | b :: rest, index, offset => do
    if bytes = 0 then return (index, offset)
    let remaining ← checkedSub b.size offset
    if bytes < remaining then return (index, offset + bytes)
    advance (bytes - remaining) rest (index + 1) 0

def wrote (callback : Stream → Stream) (s : Stream) (bytes : Nat) : Except Fault Stream := do
  let unsent ← checkedSub s.unsentSize bytes
  let s := checkWatermark callback
    { s with unackedSize := s.unackedSize + bytes, unsentSize := unsent, notify := false }
  let (index, offset) ← advance bytes (s.userBuffers.drop s.currentBufferIndex)
    s.currentBufferIndex s.currentBufferOffset
  return { s with currentBufferIndex := index, currentBufferOffset := offset }

/-- The buffer at the send point is partly sent. -/
def started (s : Stream) : Bool :=
  decide (0 < s.currentBufferOffset) || (s.currentBufferIndex == 0 && decide (0 < s.frontTrimmed))

/-- Remove the first wholly unsent buffer owned by `keepAlive`, if there is one. -/
def withdraw (callback : Stream → Stream) (s : Stream) (keepAlive : KeepAlive) :
    Except Fault (Bool × Stream) := do
  let first := s.currentBufferIndex + if s.started then 1 else 0
  match (s.userBuffers.drop first).findIdx? (·.keepAlive = keepAlive) with
  | none => return (false, s)
  | some j =>
    let i := first + j
    let some b := s.userBuffers[i]? | throw .outOfRange
    let unsent ← checkedSub s.unsentSize b.size
    return (true, checkWatermark callback
      { s with unsentSize := unsent, userBuffers := s.userBuffers.eraseIdx i })

/-- After a rejected 0-RTT attempt all data that was sent is unsent again. -/
def revertStream (s : Stream) : Stream :=
  { s with
    unsentSize := s.unsentSize + s.unackedSize, unackedSize := 0
    currentBufferIndex := 0, currentBufferOffset := 0
    notify := s.hadNotify || s.notify }

/-- The loop of `pending`: vectors until `bytes` are covered. The buffers given are those
from the send index on, and only the first is entered at an offset. -/
def gather (bytes : Nat) : List Buffer → Nat → Nat → Except Fault (List Bytes)
  | [], _, _ => .ok []
  | b :: rest, total, offset => do
    if bytes ≤ total then return []
    let len ← checkedSub b.size offset
    let vecs ← gather bytes rest (total + len) 0
    return b.data.drop offset :: vecs

/-- The unsent data to offer next, at least `bytes` of it if there is that much, and
whether more is queued beyond it. -/
def pending (s : Stream) (bytes : Nat) : Except Fault (List Bytes × Bool) :=
  if s.userBuffers = [] ∨ s.unsentSize = 0 then
    .ok (if s.notify then [[]] else [], false)
  else do
    let vecs ← gather bytes (s.userBuffers.drop s.currentBufferIndex) 0 s.currentBufferOffset
    return (vecs, s.currentBufferIndex + vecs.length != s.userBuffers.length)

/-- `close`, as far as the stream's own flags go. -/
def close (s : Stream) : Stream :=
  if s.isClosing then s else { s with sendFin := true, isClosing := true }

def retainedImpl (s : Stream) : Nat := s.unackedSize + s.unsentSize + s.frontTrimmed

end Stream

end Libquic
