import Libquic.Datagram.Rotating

/-!
# The queue of datagrams to send

`dgram::queue` with its early-data mode, and the functions of `Datagrams` in front of it.
`unsent_bytes` is a natural number, and taking more from it than there is is a fault, as are
failed assertions and spans outside a payload. Spans and sizes of 64 bits are lists and natural
numbers; where the code computes in 16 bits, or where 64 bits can wrap, the model does as well.
-/
namespace Libquic

inductive SendStatus where
  | unsent
  | sentFirst
  | sentSecond
  | sent
  deriving DecidableEq, Repr

namespace SendStatus

/-- `a & SentFirst` -/
def hasFirst : SendStatus → Bool
  | sentFirst | sent => true
  | unsent | sentSecond => false

/-- `a & SentSecond` -/
def hasSecond : SendStatus → Bool
  | sentSecond | sent => true
  | unsent | sentFirst => false

/-- `a | b` -/
def or (a b : SendStatus) : SendStatus :=
  match a.hasFirst || b.hasFirst, a.hasSecond || b.hasSecond with
  | false, false => unsent
  | true, false => sentFirst
  | false, true => sentSecond
  | true, true => sent

end SendStatus

/-- A subtraction of `size_t` values. -/
def sizeSub (a b : Nat) : Nat := (a + 2 ^ 64 - b % 2 ^ 64) % 2 ^ 64

/-- `dgram::storage` -/
structure Storage (β : Type) where
  baseDgid : Nat
  status : SendStatus := .unsent
  splitPos : Nat := 65535
  payload : List β
  deriving DecidableEq, Repr

namespace Storage

variable {β : Type}

def size (d : Storage β) : Nat := d.payload.length

/-- The result has 16 bits. -/
def unsentSize (d : Storage β) : Nat :=
  match d.status with
  | .sent => 0
  | .sentFirst => sizeSub d.size d.splitPos % 2 ^ 16
  | .sentSecond => d.splitPos % 2 ^ 16
  | .unsent => d.size % 2 ^ 16

def unsendable (maxPiece : Nat) (splitting : Bool) (d : Storage β) : Bool :=
  match d.status with
  | .sent => false
  | .unsent => decide (maxPiece * (if splitting then 2 else 1) % 2 ^ 64 < d.size)
  | .sentFirst => decide (maxPiece < sizeSub d.size d.splitPos)
  | .sentSecond => decide (maxPiece < d.splitPos)

def unsend (d : Storage β) : Storage β := { d with status := .unsent }

end Storage

/-- `std::span::subspan` from an offset to the end. -/
def subspanFrom {β : Type} (data : List β) (offset : Nat) : Except Fault (List β) :=
  if offset ≤ data.length then .ok (data.drop offset) else .error .outOfRange

/-- `std::span::subspan` from the start. -/
def subspanTo {β : Type} (data : List β) (count : Nat) : Except Fault (List β) :=
  if count ≤ data.length then .ok (data.take count) else .error .outOfRange

/-- `dgram::prepared`: what is handed to ngtcp2, with the id in front if splitting is enabled. -/
structure Prepared (β : Type) where
  splittingEnabled : Bool
  id : Nat
  payload : List β
  deriving DecidableEq, Repr

/-- `dgram::queue` -/
structure DatagramQueue (β : Type) where
  packetSplitting : Bool
  earlyDataHead : Option Nat := none
  lastI : Nat := 2 ^ 64 - 1
  lastSent : SendStatus := .unsent
  lastSize : Nat := 0
  unsentBytes : Nat := 0
  buf : List (Storage β) := []
  /-- `DEFAULT_SPLIT_LOOKAHEAD` -/
  splitLookahead : Nat := 8
  deriving DecidableEq, Repr

namespace DatagramQueue

variable {β : Type}

/-- `early_data_head.value_or(0)` -/
def head (q : DatagramQueue β) : Nat := q.earlyDataHead.getD 0

def empty (q : DatagramQueue β) : Bool := decide (q.buf.length ≤ q.head)

def pendingBytes (q : DatagramQueue β) : Nat := q.unsentBytes

def emplace (payload : List β) (baseDgid : Nat) (q : DatagramQueue β) : DatagramQueue β :=
  { q with
    unsentBytes := q.unsentBytes + payload.length
    buf := q.buf ++ [{ baseDgid := baseDgid, payload := payload }] }

def subUnsent (bytes : Nat) (q : DatagramQueue β) : Except Fault (DatagramQueue β) :=
  if bytes ≤ q.unsentBytes then .ok { q with unsentBytes := q.unsentBytes - bytes }
  else .error .underflow

/-! ## Fetching -/

/-- The loop that drops unsendable datagrams off the front, over a front part of the queue. -/
def dropUnsendable (maxPiece : Nat) : List (Storage β) → DatagramQueue β →
    Except Fault (DatagramQueue β)
  | [], q => .ok { q with buf := [] }
  | d :: rest, q =>
    if d.unsendable maxPiece q.packetSplitting then do
      let q ← q.subUnsent d.unsentSize
      dropUnsendable maxPiece rest q
    else .ok { q with buf := d :: rest }

/-- The lookahead loop: how far ahead a small piece is, its datagram with the split position set,
and the piece. -/
def lookAhead (maxPiece lookahead : Nat) :
    Nat → List (Storage β) → Except Fault (Option (Nat × Storage β × List β))
  | _, [] => .ok none
  | off, d :: rest =>
    if lookahead < off then .ok none
    else if d.status.hasSecond then lookAhead maxPiece lookahead (off + 1) rest
    else if off ≠ 0 ∧ d.status ≠ .unsent then .error .assertion
    else if d.status = .sentFirst then do
      let part ← subspanFrom d.payload d.splitPos
      .ok (some (off, d, part))
    else if maxPiece < d.size then do
      let d := { d with splitPos := maxPiece % 2 ^ 16 }
      let part ← subspanFrom d.payload d.splitPos
      .ok (some (off, d, part))
    else lookAhead maxPiece lookahead (off + 1) rest

/-- What of the head is sent: the datagram with its split position, the status for the piece, the
bits of its id, and the piece. -/
def headPiece (maxPiece : Nat) (splitting : Bool) (head : Storage β) :
    Except Fault (Storage β × SendStatus × Nat × List β) :=
  if head.status = .sent then .error .assertion
  else if !splitting then .ok (head, .sent, 0, head.payload)
  else
    match head.status with
    | .sentFirst => do
      let part ← subspanFrom head.payload head.splitPos
      .ok (head, .sentSecond, dgidSplitSecond, part)
    | .sentSecond => do
      let part ← subspanTo head.payload head.splitPos
      .ok (head, .sentFirst, dgidSplitFirst, part)
    | _ =>
      if maxPiece < head.size then do
        let head := { head with splitPos := maxPiece % 2 ^ 16 }
        let part ← subspanTo head.payload head.splitPos
        .ok (head, .sentFirst, dgidSplitFirst, part)
      else .ok (head, .sent, 0, head.payload)

/-- The end of `fetch`, once a piece of the datagram at index `i` has been chosen. -/
def prepare (i : Nat) (d : Storage β) (status : SendStatus) (bits : Nat) (part : List β)
    (q : DatagramQueue β) : Option (Prepared β) × DatagramQueue β :=
  (some ⟨q.packetSplitting, d.baseDgid ||| bits, part⟩,
    { q with
      buf := q.buf.set i d
      lastI := i
      lastSent := status
      lastSize := part.length })

/-- A small piece to send along, if that is asked for and there is one. -/
def smallPiece (maxPiece : Nat) (preferSmall : Bool) (q : DatagramQueue β) :
    Except Fault (Option (Nat × Storage β × List β)) :=
  if preferSmall && q.packetSplitting then
    lookAhead maxPiece q.splitLookahead 0 (q.buf.drop q.head)
  else .ok none

/-- The rest of `fetch`, after unsendable datagrams have been dropped. -/
def choose (maxPiece : Nat) (preferSmall : Bool) (q : DatagramQueue β) :
    Except Fault (Option (Prepared β) × DatagramQueue β) :=
  match q.buf[q.head]? with
  | none => .ok (none, q)
  | some head => do
    let small ← q.smallPiece maxPiece preferSmall
    match small with
    | some (off, d, part) => .ok (q.prepare (q.head + off) d .sentSecond dgidSplitSecond part)
    | none => do
      let (d, status, bits, part) ← headPiece maxPiece q.packetSplitting head
      .ok (q.prepare q.head d status bits part)

def fetch (maxPiece : Nat) (preferSmall : Bool) (q : DatagramQueue β) :
    Except Fault (Option (Prepared β) × DatagramQueue β) := do
  let q ← q.dropUnsendable maxPiece q.buf
  q.choose maxPiece preferSmall

/-- The part of `confirm_sent` for a datagram that is fully sent. -/
def popSent (status : SendStatus) (q : DatagramQueue β) : Except Fault (DatagramQueue β) :=
  if status ≠ .sent then .ok q
  else if q.lastI ≠ q.head then .error .assertion
  else
    match q.earlyDataHead with
    | some head => .ok { q with earlyDataHead := some (head + 1) }
    | none => .ok { q with buf := q.buf.tail }

def confirmSent (q : DatagramQueue β) : Except Fault (DatagramQueue β) :=
  match q.buf[q.lastI]? with
  | none => .error .assertion
  | some b => do
    let b := { b with status := b.status.or q.lastSent }
    let q ← { q with buf := q.buf.set q.lastI b }.subUnsent q.lastSize
    let q ← q.popSent b.status
    .ok { q with lastI := 2 ^ 64 - 1 }

/-! ## Early data -/

def earlyDataBegin (q : DatagramQueue β) : Except Fault (DatagramQueue β) :=
  if q.buf.isEmpty then .ok { q with earlyDataHead := some 0 } else .error .assertion

/-- The furthest index that `early_data_retry` visits. -/
def retryLimit (head : Nat) (q : DatagramQueue β) : Nat :=
  head + if q.packetSplitting then q.splitLookahead else 0

/-- The loop of `early_data_retry`, over the datagrams it visits: the bytes that are unsent again. -/
def retryBytes : List (Storage β) → Except Fault Nat
  | [] => .ok 0
  | d :: rest => do
    let bytes ← if d.unsentSize ≤ d.size then .ok (d.size - d.unsentSize) else .error .underflow
    let others ← retryBytes rest
    .ok (bytes + others)

def earlyDataRetry (q : DatagramQueue β) : Except Fault (DatagramQueue β) :=
  match q.earlyDataHead with
  | none => .ok q
  | some head => do
    let visited := q.buf.take (q.retryLimit head + 1)
    let bytes ← retryBytes visited
    .ok { q with
      unsentBytes := q.unsentBytes + bytes
      buf := visited.map Storage.unsend ++ q.buf.drop (q.retryLimit head + 1)
      earlyDataHead := some 0 }

def earlyDataEnd (accepted : Bool) (q : DatagramQueue β) : Except Fault (DatagramQueue β) :=
  match q.earlyDataHead with
  | none => .ok q
  | some head =>
    if accepted then
      if head ≤ q.buf.length then .ok { q with buf := q.buf.drop head, earlyDataHead := none }
      else .error .outOfRange
    else do
      let q ← q.earlyDataRetry
      .ok { q with earlyDataHead := none }

end DatagramQueue

/-! ## The channel in front of the queue -/

/-- `Datagrams`, as far as sending goes. -/
structure Datagrams (β : Type) where
  sendBuffer : DatagramQueue β
  dgramQueueLimit : Nat := 2000000
  dgramDropCount : Nat := 0
  nextDgramCounter : Nat := 0
  deriving DecidableEq, Repr

namespace Datagrams

variable {β : Type}

def unsentImpl (d : Datagrams β) : Nat := d.sendBuffer.pendingBytes

/-- The job of `send_impl` on a connection that is still there. -/
def sendImpl (data : List β) (d : Datagrams β) : Datagrams β :=
  if d.dgramQueueLimit < d.unsentImpl then { d with dgramDropCount := d.dgramDropCount + 1 }
  else { d with
    nextDgramCounter := (d.nextDgramCounter + 1) % 2 ^ 14
    sendBuffer := d.sendBuffer.emplace data (d.nextDgramCounter <<< 2) }

/-- A negative value restores the default. -/
def setSplitDatagramLookahead (n : Int) (d : Datagrams β) : Datagrams β :=
  { d with sendBuffer := { d.sendBuffer with
      splitLookahead := if 0 ≤ n then n.toNat else 8 } }

/-- `pending`, with the maximum piece size that the connection has at the time. -/
def pending (maxPiece : Nat) (preferSmall : Bool) (d : Datagrams β) :
    Except Fault (Option (Prepared β) × Datagrams β) := do
  let (prepared, q) ← d.sendBuffer.fetch maxPiece preferSmall
  .ok (prepared, { d with sendBuffer := q })

def confirmDatagramSent (d : Datagrams β) : Except Fault (Datagrams β) := do
  let q ← d.sendBuffer.confirmSent
  .ok { d with sendBuffer := q }

end Datagrams

end Libquic
