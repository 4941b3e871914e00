import Libquic.Connection.Offer
import Libquic.Endpoint.SendPackets

/-!
# Building and sending a batch

`flush_packets` and `send` of a connection. One call of `iterate` is one turn of the
loop of `flush_packets`, or of the inner loop over datagrams; whatever ngtcp2 and the
transport do in it is an input. Timers, statistics and the return value, which only
says whether the batch is stalled, are left out.

For each packet in the batch, the path that ngtcp2 reported when it wrote the packet is
kept with its ECN value, and `handed` records it beside the path that the packet is
sent with. Nothing reads these.
-/
namespace Libquic

open Lib Lib.Memory

structure Path (Addr : Type) where
  localAddr : Addr
  remoteAddr : Addr
  deriving DecidableEq, Repr, Inhabited

/-- A packet's ECN value, and the path that ngtcp2 wrote the packet for. -/
structure Mark (Addr : Type) where
  ecn : UInt8
  path : Path Addr
  deriving DecidableEq, Repr, Inhabited

/-- `send_batch`; connections are known by number. -/
structure SendBatch (Addr : Type) where
  arrays : Arrays (Mark Addr)
  nPackets : Nat := 0
  stalled : Bool := false
  owner : Option Nat := none
  waiters : List Nat := []
  deriving DecidableEq, Repr

/-- The datagram channel's part in a flush: fetch a datagram that fits, preferring small
ones or not, and note that the one fetched last has gone into a packet. -/
structure DgramChannel (δ : Type) where
  pending : Bool → δ → Bool × δ
  confirmSent : δ → δ
  isEmpty : δ → Bool

structure FlushConn (Addr δ : Type) where
  path : Path Addr
  nat64Path : Option (Path Addr) := none
  dead : Bool := false
  streams : List (Int × Stream) := []
  dgrams : Option δ := none
  waitingOnStall : Bool := false
  deriving DecidableEq, Repr

def FlushConn.sendPath {Addr δ : Type} (c : FlushConn Addr δ) : Path Addr := c.nat64Path.getD c.path

/-- The errors that the code tells apart. -/
inductive Ngtcp2Error where
  | closing | draining | writeMore
  | streamDataBlocked | streamNotFound | streamShutWr
  | invalidState | invalidArgument
  | other (code : Int)
  deriving DecidableEq, Repr

/-- The errors after which the connection can still be used. -/
def Ngtcp2Error.recoverable (isStream : Bool) : Ngtcp2Error → Bool
  | .writeMore => true
  | .streamDataBlocked | .streamNotFound | .streamShutWr => isStream
  | .invalidState | .invalidArgument => !isStream
  | _ => false

/-- `nwrite`: the packet written, nothing, or an error. -/
inductive Nwrite where
  | packet (data : Bytes) (ecn : UInt8)
  | zero
  | error (e : Ngtcp2Error)
  deriving DecidableEq, Repr

/-- What ngtcp2, a watermark callback and the transport do in one turn of the loop. -/
structure Write (Addr : Type) where
  nwrite : Nwrite
  /-- The path that the call leaves in `_path`. -/
  path : Path Addr
  /-- `ndatalen`, if it is not negative. -/
  ndatalen : Option Nat := none
  accepted : Bool := false
  reaction : Reaction := .done
  transport : Transport

/-- The variables of the loop of `flush_packets`. -/
structure FlushLoop where
  channels : List Channel
  maxStreamPackets : Nat
  bufPos : Nat := 0
  partiallyFilled : Bool := false
  streamPackets : Nat := 0
  /-- Inside the loop over datagrams: `datagram_waiting`, and whether ngtcp2 has asked for
  more already. -/
  inDatagrams : Option (Bool × Bool) := none
  deriving DecidableEq, Repr

/-- A flush in progress, or one that has returned if there is no `loop`. -/
structure Flush (Addr δ : Type) where
  conn : FlushConn Addr δ
  batch : SendBatch Addr
  loop : Option FlushLoop
  /-- For each packet that a connection without NAT64 has passed to `send_packets`: the path
  reported, and the path used. -/
  handed : List (Path Addr × Path Addr) := []
  deriving DecidableEq, Repr

variable {Addr δ : Type} [Inhabited Addr]

namespace SendBatch

/-- Pass the batch to `send_packets`. -/
def hand (b : SendBatch Addr) (transport : Transport) :
    Except Fault (IoResult × SendBatch Addr) :=
  match sendPackets transport b.arrays b.nPackets with
  | none => .error .divergence
  | some r => .ok (r.result, { b with arrays := r.arrays, nPackets := r.nPkts })

/-- The paths reported for the packets in the batch, each with the path to be used, unless the
connection uses NAT64: its packets are not sent with a path that ngtcp2 knows. -/
def handing (b : SendBatch Addr) (c : FlushConn Addr δ) : List (Path Addr × Path Addr) :=
  if c.nat64Path.isSome then []
  else (b.arrays.read b.nPackets).map fun p => (p.ecn.path, c.sendPath)

/-- `Endpoint::stall_send` -/
def stallSend (b : SendBatch Addr) (owner : Nat) : Except Fault (SendBatch Addr) :=
  if b.stalled || b.nPackets == 0 then .error .assertion
  else .ok { b with stalled := true, owner := some owner }

/-- A packet just written at `pos`. -/
def push (b : SendBatch Addr) (pos : Nat) (data : Bytes) (mark : Mark Addr) :
    Except Fault (SendBatch Addr) :=
  if b.arrays.buf.length < pos + data.length ∨ b.arrays.size.length ≤ b.nPackets ∨
      b.arrays.ecn.length ≤ b.nPackets then .error .outOfRange
  else .ok { b with
    arrays :=
      { buf := write b.arrays.buf pos data
        size := write b.arrays.size b.nPackets [data.length]
        ecn := write b.arrays.ecn b.nPackets [mark] }
    nPackets := b.nPackets + 1 }

end SendBatch

namespace Flush

/-- The batch has been passed to `send_packets`, which has left `batch`. -/
def handOver (x : Flush Addr δ) (batch : SendBatch Addr) : Flush Addr δ :=
  { x with batch := batch, handed := x.handed ++ x.batch.handing x.conn }

/-- `Connection::send` by connection `i`; returns whether the caller can keep on sending. -/
def send (i : Nat) (transport : Transport) (x : Flush Addr δ) :
    Except Fault (Bool × Flush Addr δ) := do
  if x.batch.nPackets = 0 ∨ maxBatch < x.batch.nPackets then throw .assertion
  let (result, batch) ← x.batch.hand transport
  match result with
  | .ok => return (true, x.handOver batch)
  | .blocked => return (false, x.handOver (← batch.stallSend i))
  | _ => return (false, x.handOver batch)

/-- The end of `flush_packets`, after its loop. -/
def finish (i : Nat) (transport : Transport) (x : Flush Addr δ) : Except Fault (Flush Addr δ) := do
  if x.batch.nPackets = 0 then return { x with loop := none }
  let (_, x) ← x.send i transport
  return { x with loop := none }

def lookup (x : Flush Addr δ) (id : Int) : Option Stream :=
  (x.conn.streams.find? (·.1 = id)).map Prod.snd

def setStream (x : Flush Addr δ) (id : Int) (s : Stream) : Flush Addr δ :=
  { x with conn.streams := x.conn.streams.map fun entry => if entry.1 = id then (id, s) else entry }

/-- `source->has_unsent()` -/
def hasUnsent (Q : DgramChannel δ) (x : Flush Addr δ) : Channel → Bool
  | .stream id => (x.lookup id).any fun s => !s.userBuffers.isEmpty
  | .datagrams => x.conn.dgrams.any fun q => !Q.isEmpty q
  | .pseudo => false

/-- Tell the stream that `ndatalen` of its bytes went into a packet. -/
def wrote (x : Flush Addr δ) (w : Write Addr) : Channel → Except Fault (Flush Addr δ)
  | .stream id =>
    match x.lookup id, w.ndatalen with
    | some s, some n => do return x.setStream id (← s.wrote (Stream.react true w.reaction) n)
    | _, _ => .ok x
  | _ => .ok x

/-- Go on with the loop. -/
def goOn (x : Flush Addr δ) (f : FlushLoop) : Except Fault (Flush Addr δ) :=
  .ok { x with loop := some f }

/-- Nothing more can be sent, including what is in the batch. -/
def abandon (x : Flush Addr δ) : Except Fault (Flush Addr δ) :=
  .ok { x with batch.nPackets := 0, loop := none }

/-- Which channels are left after a packet with data from `source`. -/
def requeue (Q : DgramChannel δ) (x : Flush Addr δ) (source : Channel) (waiting : Bool)
    (channels : List Channel) : Except Fault (List Channel) :=
  if waiting then .ok (.datagrams :: channels)
  else if source = .pseudo && channels.isEmpty then .ok [.pseudo]
  else if x.hasUnsent Q source then
    if channels.isEmpty then .error .assertion
    else .ok (channels.dropLast ++ [source] ++ channels.drop (channels.length - 1))
  else .ok channels

/-- The end of a turn in which ngtcp2 has written a packet. -/
def proceed (Q : DgramChannel δ) (i : Nat) (source : Channel) (waiting : Bool)
    (transport : Transport) (f : FlushLoop) (x : Flush Addr δ) : Except Fault (Flush Addr δ) := do
  if f.streamPackets = f.maxStreamPackets then x.finish i transport
  else x.goOn { f with channels := ← x.requeue Q source waiting f.channels }

/-- The part of the loop after ngtcp2 has written a packet. -/
def packetWritten (Q : DgramChannel δ) (i : Nat) (source : Channel) (waiting : Bool)
    (w : Write Addr) (data : Bytes) (ecn : UInt8) (f : FlushLoop) (x : Flush Addr δ) :
    Except Fault (Flush Addr δ) := do
  let x ← x.wrote w source
  let batch ← x.batch.push f.bufPos data ⟨ecn, x.conn.path⟩
  let x := { x with batch := batch }
  let f := { f with
    partiallyFilled := false
    bufPos := f.bufPos + data.length
    streamPackets := f.streamPackets + 1 }
  if x.batch.nPackets = maxBatch then
    let (on, x) ← x.send i w.transport
    if !on then return { x with loop := none }
    if x.batch.nPackets ≠ 0 then throw .assertion
    x.proceed Q i source waiting w.transport { f with bufPos := 0 }
  else x.proceed Q i source waiting w.transport f

/-- The part of the loop after a call to ngtcp2, for data from `source`. -/
def conclude (Q : DgramChannel δ) (i : Nat) (source : Channel) (waiting : Bool) (nwrite : Nwrite)
    (w : Write Addr) (f : FlushLoop) (x : Flush Addr δ) : Except Fault (Flush Addr δ) :=
  match nwrite with
  | .zero =>
    -- If a stream's data did not fit, the connection is congested: only the pseudo stream is left.
    match source with
    | .stream _ => x.goOn { f with channels := f.channels.drop (f.channels.length - 1) }
    | _ => x.goOn f
  | .error e =>
    if e = .closing || e = .draining then x.abandon
    else if !e.recoverable (source != .datagrams) then { x with conn.dead := true }.abandon
    else if e = .writeMore then
      if source = .datagrams then
        x.goOn { f with
          partiallyFilled := true
          channels := if x.hasUnsent Q .datagrams then .datagrams :: f.channels else f.channels }
      else if w.ndatalen.isNone then .error .assertion
      else do (← x.wrote w source).goOn { f with partiallyFilled := true }
    else x.goOn f
  | .packet data ecn => x.packetWritten Q i source waiting w data ecn f

/-- A turn of the loop over datagrams. -/
def datagramTurn (Q : DgramChannel δ) (i : Nat) (waiting more : Bool) (w : Write Addr)
    (f : FlushLoop) (x : Flush Addr δ) : Except Fault (Flush Addr δ) :=
  match x.conn.dgrams with
  | none => .error .nullPointer
  | some q =>
    let fetched := Q.pending f.partiallyFilled q
    if !fetched.1 then
      { x with conn.dgrams := some fetched.2 }.conclude Q i .datagrams false
        (if more then .error .writeMore else .zero) w { f with inDatagrams := none }
    else
      let x := { x with
        conn.path := w.path
        conn.dgrams := some (if w.accepted then Q.confirmSent fetched.2 else fetched.2) }
      let waiting := waiting && !w.accepted
      if w.nwrite = .error .writeMore then
        x.goOn { f with partiallyFilled := true, inDatagrams := some (waiting, true) }
      else x.conclude Q i .datagrams waiting w.nwrite w { f with inDatagrams := none }

/-- A stream's turn in the loop. -/
def streamTurn (Q : DgramChannel δ) (i : Nat) (id : Int) (w : Write Addr) (f : FlushLoop)
    (x : Flush Addr δ) : Except Fault (Flush Addr δ) :=
  match x.lookup id with
  | none => .error .nullPointer
  | some s => do
    match ← s.offer with
    | none => x.goOn f
    | some o =>
      let s := w.ndatalen.elim s (s.noteFin o)
      { x with conn.path := w.path }.setStream id s |>.conclude Q i (.stream id) false w.nwrite w f

/-- One turn of the loop of `flush_packets`. -/
def iterate (Q : DgramChannel δ) (i : Nat) (w : Write Addr) (x : Flush Addr δ) :
    Except Fault (Flush Addr δ) :=
  match x.loop with
  | none => .ok x
  | some f =>
    match f.inDatagrams, f.channels with
    | some (waiting, more), _ => x.datagramTurn Q i waiting more w f
    | none, [] => x.finish i w.transport
    | none, .datagrams :: rest =>
      x.goOn { f with channels := rest, inDatagrams := some (true, false) }
    | none, .stream id :: rest => x.streamTurn Q i id w { f with channels := rest }
    | none, .pseudo :: rest =>
      { x with conn.path := w.path }.conclude Q i .pseudo false w.nwrite w { f with channels := rest }

/-- How many bytes of stream data this turn of the loop offers to ngtcp2. -/
def offered (x : Flush Addr δ) : Nat :=
  match x.loop.map FlushLoop.channels with
  | some (.stream id :: _) => ((x.lookup id).map Stream.offeredSize).getD 0
  | _ => 0

end Flush

/-- A packet is not empty and fits; a stream write that asks for more has taken data. -/
def Write.valid (w : Write Addr) : Bool :=
  match w.nwrite with
  | .packet data _ => !data.isEmpty && data.length ≤ maxPmtudUdpPayload
  | .error .writeMore => w.ndatalen.isSome
  | _ => true

/-- What ngtcp2 promises of a call: `valid`, and it takes at most what it is offered. -/
structure Write.Honest (w : Write Addr) (x : Flush Addr δ) : Prop where
  valid : w.valid = true
  taken : w.ndatalen.getD 0 ≤ x.offered

end Libquic
