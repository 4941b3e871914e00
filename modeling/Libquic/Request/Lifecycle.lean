import Libquic.Lib.Machine
import Libquic.Lib.OrderedMap
import Libquic.Request.Message

/-!
# Request streams: the life of a request

A command with a callback becomes a `sent_request`, kept in `sent_reqs` by its id and in
`req_expiries` by its expiry, with one timer for the earliest of them. A reply, the timer, the
closing of the stream, a command given to a closing stream and, at last, the destructor of the
request itself each answer it. The callback is application code that runs right there and may
issue further commands; what it does is a `Followup`. An exception out of it is caught by
`deliver`, so a callback that throws is one whose list of commands ends early.

Times are in nanoseconds.
-/
namespace Libquic

open Lib

/-- The options of a command. `fits` says that its frame is within `max_request_size`; otherwise
the constructor of `sent_request` throws, before it has looked at the other options. -/
structure CommandOpts where
  fits : Bool := true
  needsResponse : Bool := true
  /-- In milliseconds. -/
  timeout : Option Int := none
  /-- The time that has passed since the previous event. -/
  elapsed : Nat := 0
  deriving DecidableEq, Repr

/-- The command does not throw, and its callback is owed an answer. -/
def CommandOpts.submits (opts : CommandOpts) : Bool := opts.fits && opts.needsResponse

/-- What a response callback does: commands, in order, each with what its own callback does. -/
inductive Followup where
  | done
  | command (opts : CommandOpts) (inner next : Followup)
  deriving DecidableEq, Repr

structure SentRequest where
  reqId : Int
  expiry : Int
  cb : Followup
  deriving DecidableEq, Repr

/-- One invocation of a response callback, with the message or, for a timeout, without. -/
structure Answer where
  reqId : Int
  message : Option Message
  deriving DecidableEq, Repr

/-- A pending timer: when it was set, and for when. -/
structure Timer where
  armedAt : Int
  deadline : Int
  deriving DecidableEq, Repr

structure Requests where
  sentReqs : List (Int × SentRequest) := []
  reqExpiries : List (Int × Int) := []
  timer : Option Timer := none
  isClosing : Bool := false
  nextRid : Int := 0
  now : Int := 0
  /-- Commands from other threads, waiting in the stream's job queue. -/
  jobs : List SentRequest := []
  /-- Cleared once the destructor of the stream has come to its members. -/
  containers : Bool := true
  /-- The commands with a callback that did not throw, and the callbacks invoked. History
  variables: nothing reads them. -/
  accepted : List Int := []
  answers : List Answer := []
  deriving DecidableEq, Repr

def defaultTimeout : Int := 10000

namespace Requests

/-! ## The timer -/

/-- `ceil<microseconds>`, in nanoseconds. -/
def ceilMicroseconds (d : Int) : Int := -(-d / 1000) * 1000

def updateTimeout (s : Requests) : Requests :=
  match s.reqExpiries with
  | [] => { s with timer := none }
  | front :: _ =>
    { s with timer := some ⟨s.now, s.now + max 0 (ceilMicroseconds (front.1 - s.now))⟩ }

/-! ## Commands -/

/-- A multimap puts an entry behind those with an equal key. -/
def insertExpiry (expiry id : Int) : List (Int × Int) → List (Int × Int)
  | [] => [(expiry, id)]
  | e :: rest => if expiry < e.1 then (expiry, id) :: e :: rest else e :: insertExpiry expiry id rest

/-- The part of `add_sent_request` for a stream that is not closing. -/
def addSentRequest (s : Requests) (r : SentRequest) : Except Fault Requests :=
  if s.containers then
    let s := { s with
      sentReqs := OrderedMap.insert r.reqId r s.sentReqs
      reqExpiries := insertExpiry r.expiry r.reqId s.reqExpiries }
    .ok (if s.reqExpiries.head?.map Prod.snd = some r.reqId then s.updateTimeout else s)
  -- the maps are being destroyed
  else .error .danglingIterator

def answer (s : Requests) (id : Int) (m : Option Message) : Requests :=
  { s with answers := s.answers ++ [⟨id, m⟩] }

/-- The job of a command: a closing stream drops the request, whose destructor answers it. -/
def submit (callback : Requests → Except Fault Requests) (s : Requests) (r : SentRequest) :
    Except Fault Requests :=
  if s.isClosing then callback (s.answer r.reqId none) else s.addSentRequest r

/-- The next request id, and the time at which it is taken. -/
def begin (s : Requests) (opts : CommandOpts) : Requests :=
  { s with now := s.now + opts.elapsed, nextRid := s.nextRid + 1 }

/-- The request of a command about to be issued. -/
def makeRequest (s : Requests) (opts : CommandOpts) (cb : Followup) : SentRequest where
  reqId := s.nextRid
  expiry := s.now + opts.elapsed + opts.timeout.getD defaultTimeout * 1000000
  cb := cb

/-- A command issued on the loop thread. One that does not fit throws, and one without a callback
is only sent. -/
def command (callback : Requests → Except Fault Requests) (s : Requests) (opts : CommandOpts)
    (cb : Followup) : Except Fault Requests :=
  if opts.submits then
    let r := s.makeRequest opts cb
    let s := s.begin opts
    submit callback { s with accepted := s.accepted ++ [r.reqId] } r
  else .ok (s.begin opts)

/-- Run a response callback. -/
def react : Followup → Requests → Except Fault Requests
  | .done, s => .ok s
  | .command opts inner next, s => do
    let s ← command (react inner) s opts inner
    react next s

/-! ## Answers -/

def timeOut (s : Requests) (r : SentRequest) : Except Fault Requests :=
  react r.cb (s.answer r.reqId none)

def deliver (s : Requests) (r : SentRequest) (m : Message) : Except Fault Requests :=
  react r.cb (s.answer r.reqId (some m))

/-- The request behind an id. -/
def find (s : Requests) (id : Int) : Option SentRequest :=
  (s.sentReqs.find? (·.1 = id)).map Prod.snd

def isExpired (now : Option Int) (entry : Int × Int) : Bool :=
  match now with
  | none => true
  | some t => decide (entry.1 ≤ t)

def checkTimeouts (s : Requests) (now : Option Int) : Except Fault Requests :=
  let due := s.reqExpiries.takeWhile (isExpired now)
  let expired := due.filterMap fun entry => s.find entry.2
  let s := { s with
    sentReqs := s.sentReqs.filter fun entry => !(due.map Prod.snd).contains entry.1
    reqExpiries := s.reqExpiries.dropWhile (isExpired now) }
  expired.foldlM timeOut s

/-- The reply branch of `handle_input`. -/
def handleReply (s : Requests) (m : Message) : Except Fault Requests :=
  match s.find m.reqId.toInt with
  | none => .ok s
  | some r =>
    let wasFront := s.reqExpiries.head? = some (r.expiry, r.reqId)
    let s := { s with
      sentReqs := s.sentReqs.filter (·.1 ≠ m.reqId.toInt)
      reqExpiries := s.reqExpiries.erase (r.expiry, r.reqId) }
    (if wasFront then s.updateTimeout else s).deliver r m

/-- The timer's event, which is no longer pending when its callback runs. -/
def timerFired (s : Requests) : Except Fault Requests := do
  let s ← { s with timer := none }.checkTimeouts (some s.now)
  return s.updateTimeout

/-- `stream_execute_close` on a stream that was not closing, and `closed`. -/
def closed (s : Requests) : Except Fault Requests :=
  { s with isClosing := true, timer := none }.checkTimeouts none

/-! ## Destruction -/

/-- The jobs discarded by `job_queue.stop()`. -/
def stopJobs (s : Requests) : Except Fault Requests :=
  s.jobs.foldlM timeOut { s with jobs := [] }

/-- `req_expiries.clear()` and the requests moved out of `sent_reqs`. -/
def clearRequests (s : Requests) : Except Fault Requests :=
  (s.sentReqs.map Prod.snd).foldlM timeOut { s with sentReqs := [], reqExpiries := [] }

/-- The members, with whatever callbacks have put into them since. -/
def destroyMembers (s : Requests) : Except Fault Requests :=
  (s.sentReqs.map Prod.snd).foldlM timeOut
    { s with sentReqs := [], reqExpiries := [], timer := none, containers := false }

def destroy (s : Requests) : Except Fault Requests := do
  let s ← s.stopJobs
  let s ← s.clearRequests
  s.destroyMembers

/-! ## The machine -/

inductive Op where
  | tick (elapsed : Nat)
  | command (opts : CommandOpts) (cb : Followup)
  /-- A command from another thread. -/
  | post (opts : CommandOpts) (cb : Followup)
  | runJob
  | reply (m : Message)
  | timerFired
  | close
  | closed
  deriving DecidableEq, Repr

/-- A job is only run if there is one, a timer fires when it is due, and `closed` is called once,
on a stream that was not closing. -/
def enabled (s : Requests) : Op → Prop
  | .runJob => s.jobs ≠ []
  | .timerFired => ∃ t ∈ s.timer, t.deadline ≤ s.now
  | .closed => s.isClosing = false
  | _ => True

/-- The request of a command from another thread waits for the loop. -/
def post (s : Requests) (opts : CommandOpts) (cb : Followup) : Requests :=
  if opts.submits then
    let r := s.makeRequest opts cb
    let s := s.begin opts
    { s with accepted := s.accepted ++ [r.reqId], jobs := s.jobs ++ [r] }
  else s.begin opts

def runJob (s : Requests) : Except Fault Requests :=
  match s.jobs with
  | [] => .ok s
  | r :: jobs => submit (react r.cb) { s with jobs := jobs } r

def step (s : Requests) : Op → Except Fault Requests
  | .tick elapsed => .ok { s with now := s.now + elapsed }
  | .command opts cb => command (react cb) s opts cb
  | .post opts cb => .ok (s.post opts cb)
  | .runJob => s.runJob
  | .reply m => s.handleReply m
  | .timerFired => s.timerFired
  | .close => .ok { s with isClosing := true }
  | .closed => s.closed

/-- A request stream up to its destruction, which may follow at any point. -/
def machine : Machine Requests Op Fault where
  initial s := s = {}
  enabled := enabled
  step := step

end Requests
end Libquic
