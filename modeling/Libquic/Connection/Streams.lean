import Libquic.Lib.Machine
import Libquic.Lib.OrderedMap
import Libquic.Stream.Basic

/-!
# A connection's stream objects

Where the stream objects of a connection are kept, and how they come and go: opening,
queueing, the remote opening a stream, closing by the application, by the remote, and at
the end of the connection. Objects are known by number, in the order in which they are
made, and stay there for an application that still holds them.

Close callbacks, and the callbacks of requests that a `BTRequestStream` lets time out when
it is closed, are application code that runs in the middle of these functions. What it
does there is a `Script`; a script is finite, so callbacks that open streams without end
are left out. Stream data, statistics and packets to be sent are left out as well.
-/
namespace Libquic

open Lib

inductive StreamKind where
  | stream | btRequest
  deriving DecidableEq, Repr

/-- What application code does in a callback. A stream that it makes comes with what the
stream's own close callback will do. -/
inductive Script where
  | done
  | openStream (kind : StreamKind) (onClose next : Script)
  | queueIncomingStream (kind : StreamKind) (onClose next : Script)
  | closeStream (ref : Nat) (next : Script)
  deriving DecidableEq, Repr

structure StreamObj where
  kind : StreamKind := .stream
  isClosing : Bool := false
  /-- `_conn` points to the connection. -/
  conn : Bool := true
  onClose : Script := .done
  /-- How many times the virtual function `closed` has been called. -/
  closedCalls : Nat := 0
  /-- It was `close` that marked the stream as closing. -/
  appClosed : Bool := false
  deriving DecidableEq, Repr

/-- How many times `Stream::closed` has been run. `BTRequestStream::closed` overrides it, and ends
with `Stream::close` instead. -/
def StreamObj.closedRuns (o : StreamObj) : Nat :=
  match o.kind with
  | .stream => o.closedCalls
  | .btRequest => 0

/-- A call of `open_stream` or `queue_incoming_stream`: whether the stream returned was
closed, and whether it was in a container. -/
structure OpenCall where
  closed : Bool
  stored : Bool
  deriving DecidableEq, Repr

structure StreamConn where
  objs : Nat → StreamObj := fun _ => {}
  /-- How many objects there are. -/
  count : Nat := 0
  streams : List (Int × Nat) := []
  streamQueue : List (Int × Nat) := []
  pendingStreams : List Nat := []
  closing : Bool := false
  draining : Bool := false
  nextIncomingStreamId : Int := 1
  /-- The id that ngtcp2 gives the next stream, and how many more it allows. -/
  nextStreamId : Int := 0
  bidiLeft : Nat := 0
  /-- `_conn` of the pseudo stream and of the datagram channel. -/
  pseudoStream : Bool := true
  dgrams : Bool := true
  /-- The calls made so far. -/
  calls : List OpenCall := []
  /-- Streams that left their container, or were not put in one, when they were closing
  already or are of a kind whose `closed` does not reset `_conn`. -/
  strays : List Nat := []

namespace StreamConn

def ended (x : StreamConn) : Bool := x.closing || x.draining

/-- Everything in the three containers. -/
def stored (x : StreamConn) : List Nat :=
  x.streams.map Prod.snd ++ x.streamQueue.map Prod.snd ++ x.pendingStreams

def modify (x : StreamConn) (ref : Nat) (f : StreamObj → StreamObj) : StreamConn :=
  { x with objs := Function.update x.objs ref (f (x.objs ref)) }

/-- `Stream::close` -/
def close (x : StreamConn) (ref : Nat) : StreamConn :=
  x.modify ref fun o => if o.isClosing then o else { o with isClosing := true, appClosed := true }

/-- `closed`, which a `BTRequestStream` overrides: it then calls `Stream::close`, which does
nothing more for a stream that is closing. -/
def closed (callback : StreamConn → StreamConn) (ref : Nat) (x : StreamConn) : StreamConn :=
  let x := callback (x.modify ref fun o => { o with closedCalls := o.closedCalls + 1 })
  match (x.objs ref).kind with
  | .stream => x.modify ref fun o => { o with conn := false, isClosing := true }
  | .btRequest => x.close ref

def streamExecuteClose (callback : StreamConn → StreamConn) (ref : Nat) (x : StreamConn) :
    StreamConn :=
  let wasClosing := (x.objs ref).isClosing
  let x := x.modify ref fun o => { o with isClosing := true }
  let x := if wasClosing || (x.objs ref).kind == .btRequest then
    { x with strays := x.strays ++ [ref] } else x
  if wasClosing then x else x.closed callback ref

/-- A new stream object: closed on the spot if the connection has ended, or else put where it
belongs. -/
def newStream (callback : StreamConn → StreamConn) (kind : StreamKind) (onClose : Script)
    (place : Nat → StreamConn → StreamConn) (x : StreamConn) : StreamConn :=
  let ref := x.count
  let x := { x with
    count := ref + 1
    objs := Function.update x.objs ref { kind := kind, onClose := onClose } }
  let x := if x.ended then x.streamExecuteClose callback ref else place ref x
  { x with calls := x.calls ++ [⟨(x.objs ref).isClosing, decide (ref ∈ x.stored)⟩] }

/-- `open_stream_impl` -/
def openStream (callback : StreamConn → StreamConn) (kind : StreamKind) (onClose : Script) :
    StreamConn → StreamConn :=
  newStream callback kind onClose fun ref x =>
    if x.bidiLeft = 0 then { x with pendingStreams := x.pendingStreams ++ [ref] }
    else { x with
      streams := OrderedMap.insert x.nextStreamId ref x.streams
      nextStreamId := x.nextStreamId + 4
      bidiLeft := x.bidiLeft - 1 }

/-- `queue_incoming_stream_impl` -/
def queueIncomingStream (callback : StreamConn → StreamConn) (kind : StreamKind)
    (onClose : Script) (x : StreamConn) : StreamConn :=
  let id := x.nextIncomingStreamId
  newStream callback kind onClose
    (fun ref x => { x with streamQueue := OrderedMap.insert id ref x.streamQueue })
    { x with nextIncomingStreamId := id + 4 }

/-- Run application code. -/
def run : Script → StreamConn → StreamConn
  | .done, x => x
  | .openStream kind onClose next, x => run next (x.openStream (run onClose) kind onClose)
  | .queueIncomingStream kind onClose next, x =>
    run next (x.queueIncomingStream (run onClose) kind onClose)
  | .closeStream ref next, x => run next (if ref < x.count then x.close ref else x)

/-- `stream_execute_close` of a stream in a container. -/
def closeStored (x : StreamConn) (ref : Nat) : StreamConn :=
  x.streamExecuteClose (run (x.objs ref).onClose) ref

def streamClosed (x : StreamConn) (id : Int) : StreamConn :=
  match x.streams.find? (·.1 = id) with
  | none => x
  | some (_, ref) =>
    let x := x.closeStored ref
    { x with streams := x.streams.filter (·.1 ≠ id) }

/-- The loop of `close_all_streams` over `_stream_queue`, from the `i`-th entry on. Streams
queued meanwhile get higher ids, so they come after. -/
def closeQueued : Nat → Nat → StreamConn → Except Fault StreamConn
  | 0, _, _ => .error .divergence
  | fuel + 1, i, x =>
    match x.streamQueue[i]? with
    | none => .ok x
    | some (_, ref) => closeQueued fuel (i + 1) (x.closeStored ref)

/-- The loop over `pending_streams`. A stream added to it meanwhile invalidates the iterator. -/
def closePending : List Nat → StreamConn → Except Fault StreamConn
  | [], x => .ok x
  | ref :: rest, x =>
    let y := x.closeStored ref
    if y.pendingStreams = x.pendingStreams then closePending rest y else .error .danglingIterator

/-- The loop over `_streams`. -/
def closeStreams : Nat → StreamConn → Except Fault StreamConn
  | 0, _ => .error .divergence
  | fuel + 1, x =>
    match x.streams with
    | [] => .ok x
    | (id, _) :: _ => closeStreams fuel (x.streamClosed id)

end StreamConn

/-- How many streams a script can make, counting those that their callbacks make. -/
def Script.size : Script → Nat
  | .done => 0
  | .openStream _ onClose next => onClose.size + next.size + 1
  | .queueIncomingStream _ onClose next => onClose.size + next.size + 1
  | .closeStream _ next => next.size

namespace StreamConn

/-- More than the number of streams that there are or that callbacks can still make. -/
def work (x : StreamConn) : Nat :=
  ((List.range x.count).map fun ref => (x.objs ref).onClose.size + 1).sum + 1

def closeAllStreams (x : StreamConn) : Except Fault StreamConn := do
  let fuel := x.work
  let x ← x.closeQueued fuel 0
  let x := { x with streamQueue := [] }
  let x ← closePending x.pendingStreams x
  let x := { x with pendingStreams := [] }
  closeStreams fuel x

def dropStreams (x : StreamConn) : StreamConn :=
  { x with
    objs := fun ref => if ref ∈ x.stored then { x.objs ref with conn := false } else x.objs ref
    streams := [], streamQueue := [], pendingStreams := []
    dgrams := false, pseudoStream := false }

/-- `stream_opened`: the remote has opened a stream. What the application's `stream_open_cb`
does is `openCb`, and whether it returns zero is `accept`. -/
def streamOpened (id : Int) (kind : StreamKind) (onClose openCb : Script) (accept : Bool)
    (x : StreamConn) : StreamConn :=
  match x.streamQueue.find? (·.1 = id) with
  | some (_, ref) =>
    { x with
      streams := OrderedMap.insert id ref x.streams
      streamQueue := x.streamQueue.filter (·.1 ≠ id) }
  | none =>
    let ref := x.count
    let x := run openCb { x with
      nextIncomingStreamId :=
        if id = x.nextIncomingStreamId then id + 4 else x.nextIncomingStreamId
      count := ref + 1
      objs := Function.update x.objs ref { kind := kind, onClose := onClose } }
    if accept then { x with streams := OrderedMap.insert id ref x.streams }
    else { x.close ref with strays := x.strays ++ [ref] }

/-- `check_pending_streams` -/
def checkPendingStreams : Nat → StreamConn → StreamConn
  | 0, x => x
  | available + 1, x =>
    match x.pendingStreams with
    | [] => x
    | ref :: rest =>
      if x.bidiLeft = 0 then x
      else checkPendingStreams available { x with
        streams := OrderedMap.insert x.nextStreamId ref x.streams
        pendingStreams := rest
        nextStreamId := x.nextStreamId + 4
        bidiLeft := x.bidiLeft - 1 }

/-- The ways in which a connection ends. -/
inductive Ending where
  | close | drain | drop
  deriving DecidableEq, Repr

/-- How the connection is marked when the close hooks start: `_drop_connection` by itself does
not mark it. -/
def marked (x : StreamConn) : Ending → StreamConn
  | .close => { x with closing := true }
  | .drain => { x with draining := true }
  | .drop => x

/-- `_execute_close_hooks`, unless the connection closes quietly: after the streams, what the
connection-closed callback does, if there is one to be called. -/
def executeCloseHooks (x : StreamConn) (notifies : Bool) (callback : Script) :
    Except Fault StreamConn := do
  let x ← x.closeAllStreams
  return if notifies then run callback x else x

def deleteConnection (x : StreamConn) : StreamConn := { x with closing := true }.dropStreams

/-- The end of a connection: a dropped one is deleted right after the hooks. -/
def endConnection (x : StreamConn) (ending : Ending) (notifies : Bool) (callback : Script) :
    Except Fault StreamConn := do
  let x ← (x.marked ending).executeCloseHooks notifies callback
  return if ending = .drop then x.deleteConnection else x

inductive Op where
  | openStream (kind : StreamKind) (onClose : Script)
  | queueIncomingStream (kind : StreamKind) (onClose : Script)
  | streamOpened (id : Int) (kind : StreamKind) (onClose openCb : Script) (accept : Bool)
  | close (ref : Nat)
  | streamClosed (id : Int)
  | extendMaxStreams (more : Nat)
  | closeAllStreams (ending : Ending)
  | deleteConnection

def step (x : StreamConn) : Op → Except Fault StreamConn
  | .openStream kind onClose => .ok (x.openStream (run onClose) kind onClose)
  | .queueIncomingStream kind onClose => .ok (x.queueIncomingStream (run onClose) kind onClose)
  | .streamOpened id kind onClose openCb accept => .ok (x.streamOpened id kind onClose openCb accept)
  | .close ref => .ok (x.close ref)
  | .streamClosed id => .ok (x.streamClosed id)
  | .extendMaxStreams more =>
    .ok (checkPendingStreams (x.bidiLeft + more) { x with bidiLeft := x.bidiLeft + more })
  | .closeAllStreams ending => (x.marked ending).closeAllStreams
  | .deleteConnection => .ok x.deleteConnection

/-- The remote opens streams of its own, each once; the application closes streams that
exist. -/
def Enabled (x : StreamConn) : Op → Prop
  | .streamOpened id .. => id % 4 = x.nextIncomingStreamId % 4 ∧ ∀ entry ∈ x.streams, entry.1 ≠ id
  | .close ref => ref < x.count
  | _ => True

/-- A client opens streams 0, 4, 8 and so on, and a server 1, 5, 9. -/
def machine : Machine StreamConn Op Fault where
  initial x := (∃ bidiLeft, x = { bidiLeft := bidiLeft }) ∨
    ∃ bidiLeft, x = { bidiLeft := bidiLeft, nextIncomingStreamId := 0, nextStreamId := 1 }
  enabled := Enabled
  step := step

end StreamConn

end Libquic
