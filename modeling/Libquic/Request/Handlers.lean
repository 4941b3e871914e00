import Libquic.Request.Chunks

/-!
# Request streams: handlers

`handle_input`, and what the application does in the handlers and response callbacks that it calls.
There the application issues commands, responds to the commands that it was given, registers
handlers, or closes the stream. For a command without a handler, or with one that throws,
`handle_input` responds with an error itself. That response has to pass the size check like any
other, and nothing catches what the check throws.

What a handler does is a list of actions. Exceptions are those derived from `std::exception`.
Timeouts of requests, and what happens to the data that is sent, are left out.
-/
namespace Libquic

open Lib Lib.Bencode

def ascii (text : String) : Bytes := text.toList.map fun c => c.toNat.toUInt8

/-- The error response if there is no handler. -/
def invalidEndpoint (ep : Bytes) : Bytes := ascii "Invalid endpoint " ++ [39] ++ ep ++ [39]

/-- The error response if a handler has thrown another exception. -/
def handlerError : Bytes := ascii "An error occurred while processing the request"

/-- The message is a reply or an error. -/
def Message.isResponse (m : Message) : Bool := m.type == typeReply || m.type == typeError

/-- What the application does in the loop's thread. -/
inductive Action where
  | command (endpoint body : Bytes) (needsResponse : Bool)
  /-- Respond to the `k`-th command that a handler was given. -/
  | respond (k : Nat) (body : Bytes) (error : Bool)
  | registerHandler (endpoint : Bytes)
  | registerGenericHandler
  | sendFin
  deriving DecidableEq, Repr

inductive HandlerEnd where
  | returns | noSuchEndpoint | throws
  deriving DecidableEq, Repr

/-- What happens with a message: what the application has done since the one before, what its
handler or callback does, whether that closes the stream, and how it ends if nothing throws
before. -/
structure HandlerRun where
  since : List Action := []
  actions : List Action := []
  closes : Option Nat := none
  ends : HandlerEnd := .returns
  deriving DecidableEq, Repr

structure RequestStream where
  maxReqLen : Nat
  registeredEndpoints : List Bytes := []
  genericHandler : Bool := false
  nextRid : Int64 := 0
  /-- The ids in `sent_reqs`. -/
  sentReqs : List Int64 := []
  sendFin : Bool := false
  /-- The code that the application has closed the stream with. -/
  closed : Option Nat := none
  /-- The frames queued so far. -/
  out : List Send := []
  /-- The commands that a handler was given, to which the application can respond. -/
  given : List Message := []
  deriving DecidableEq, Repr

namespace RequestStream

/-! ## What the application does -/

/-- `send` queues nothing for a stream that is closing or has sent its end. -/
def send (x : Send) (p : RequestStream) : RequestStream :=
  if p.closed.isSome || p.sendFin then p else { p with out := p.out ++ [x] }

/-- `command`, and the exception that it throws. -/
def command (endpoint body : Bytes) (needsResponse : Bool) (p : RequestStream) :
    RequestStream × Option String :=
  let x : Send := .command endpoint p.nextRid body
  let q := { p with nextRid := p.nextRid + 1 }
  match x.frame p.maxReqLen with
  | .error what => (q, some what)
  | .ok _ =>
    if needsResponse then
      if p.closed.isSome then (q, none)
      else ({ q with sentReqs := q.sentReqs.insert p.nextRid }.send x, none)
    else (q.send x, none)

def respond (rid : Int64) (body : Bytes) (error : Bool) (p : RequestStream) :
    RequestStream × Option String :=
  let x : Send := .response rid body error
  match x.frame p.maxReqLen with
  | .error what => (p, some what)
  | .ok _ => (p.send x, none)

/-- Goes on unless an exception was thrown. -/
def proceed (r : RequestStream × Option String)
    (f : RequestStream → RequestStream × Option String) : RequestStream × Option String :=
  match r.2 with
  | none => f r.1
  | some _ => r

def act (p : RequestStream) : Action → RequestStream × Option String
  | .command endpoint body needsResponse => p.command endpoint body needsResponse
  | .respond k body error =>
    match p.given[k]? with
    | some m => p.respond m.reqId body error
    | none => (p, none)
  | .registerHandler ep => ({ p with registeredEndpoints := ep :: p.registeredEndpoints }, none)
  | .registerGenericHandler => ({ p with genericHandler := true }, none)
  | .sendFin => ({ p with sendFin := true }, none)

def runActions : List Action → RequestStream → RequestStream × Option String
  | [], p => (p, none)
  | a :: rest, p => proceed (p.act a) (runActions rest)

/-- A handler or a callback up to its end. -/
def runHandler (run : HandlerRun) (p : RequestStream) : RequestStream × Option String :=
  proceed (runActions run.actions p) fun p => ({ p with closed := p.closed <|> run.closes }, none)

/-! ## `handle_input` -/

/-- The part for replies and errors. `deliver` catches what the callback throws. -/
def handleReply (m : Message) (run : HandlerRun) (p : RequestStream) : RequestStream :=
  if m.reqId ∈ p.sentReqs then
    (runHandler run { p with sentReqs := p.sentReqs.erase m.reqId }).1
  else p

/-- The `try` block for commands, and how it is left. -/
def attempt (m : Message) (run : HandlerRun) (p : RequestStream) : RequestStream × HandlerEnd :=
  if p.registeredEndpoints.contains m.endpoint || p.genericHandler then
    let r := runHandler run { p with given := p.given ++ [m] }
    (r.1, if r.2.isSome then .throws else run.ends)
  else (p, .noSuchEndpoint)

/-- The text of the error response in the `catch` blocks. -/
def errorBody (m : Message) : HandlerEnd → Option Bytes
  | .returns => none
  | .noSuchEndpoint => some (invalidEndpoint m.endpoint)
  | .throws => some handlerError

/-- The part for commands, and the exception that leaves it. -/
def handleCommand (m : Message) (run : HandlerRun) (p : RequestStream) :
    RequestStream × Option String :=
  let r := p.attempt m run
  match errorBody m r.2 with
  | none => (r.1, none)
  | some body => r.1.respond m.reqId body true

def handleInput (m : Message) (run : HandlerRun) (p : RequestStream) :
    RequestStream × Option String :=
  let p := (runActions run.since p).1
  if m.isResponse then (p.handleReply m run, none) else p.handleCommand m run

/-- The stream after the first `k` of the messages, unless an exception came before. The handler of
the `k`-th one runs as `runs k`. -/
def after (runs : Nat → HandlerRun) (messages : List Message) (p : RequestStream) :
    Nat → RequestStream × Option String
  | 0 => (p, none)
  | k + 1 => proceed (p.after runs messages k) fun q =>
    match messages[k]? with
    | some m => q.handleInput m (runs k)
    | none => (q, none)

/-- The stream as the parser sees it. -/
def env (runs : Nat → HandlerRun) (p : RequestStream) : RequestEnv Message where
  maxReqLen := p.maxReqLen
  message := Message.parse
  handleInput handled :=
    let r := p.after runs handled handled.length
    { closes := r.1.closed, throws := r.2 }

/-! ## What is kept -/

variable {p q : RequestStream} {m : Message} {run : HandlerRun} {runs : Nat → HandlerRun}

/-- What nothing in a handler changes, if it does not close the stream. -/
structure Same (p q : RequestStream) : Prop where
  maxReqLen : q.maxReqLen = p.maxReqLen
  closed : q.closed = p.closed

theorem Same.refl (p : RequestStream) : Same p p := ⟨rfl, rfl⟩

theorem Same.trans {u : RequestStream} (h : Same p q) (h' : Same q u) : Same p u :=
  ⟨h'.maxReqLen.trans h.maxReqLen, h'.closed.trans h.closed⟩

theorem same_send (x : Send) (p : RequestStream) : Same p (p.send x) := by
  unfold send
  split_ifs <;> exact ⟨rfl, rfl⟩

theorem same_command (endpoint body : Bytes) (needsResponse : Bool) (p : RequestStream) :
    Same p (p.command endpoint body needsResponse).1 := by
  unfold command
  dsimp only
  split
  · exact ⟨rfl, rfl⟩
  · split_ifs
    · exact ⟨rfl, rfl⟩
    · exact ⟨(same_send ..).maxReqLen, (same_send ..).closed⟩
    · exact ⟨(same_send ..).maxReqLen, (same_send ..).closed⟩

theorem same_respond (rid : Int64) (body : Bytes) (error : Bool) (p : RequestStream) :
    Same p (p.respond rid body error).1 := by
  unfold respond
  dsimp only
  split
  · exact .refl p
  · exact same_send ..

theorem same_act (p : RequestStream) (a : Action) : Same p (p.act a).1 := by
  cases a with
  | command endpoint body needsResponse => exact same_command ..
  | respond k body error =>
    unfold act
    dsimp only
    split
    · exact same_respond ..
    · exact .refl p
  | registerHandler ep => exact ⟨rfl, rfl⟩
  | registerGenericHandler => exact ⟨rfl, rfl⟩
  | sendFin => exact ⟨rfl, rfl⟩

theorem proceed_of_none {r : RequestStream × Option String} (h : r.2 = none)
    (f : RequestStream → RequestStream × Option String) : proceed r f = f r.1 := by
  simp [proceed, h]

theorem proceed_of_some {r : RequestStream × Option String} {what : String} (h : r.2 = some what)
    (f : RequestStream → RequestStream × Option String) : proceed r f = r := by
  simp [proceed, h]

theorem Same.proceed {r : RequestStream × Option String}
    {f : RequestStream → RequestStream × Option String} (h : Same p r.1)
    (hf : Same r.1 (f r.1).1) : Same p (proceed r f).1 := by
  cases hthrown : r.2 with
  | none =>
    rw [proceed_of_none hthrown]
    exact h.trans hf
  | some what =>
    rw [proceed_of_some hthrown]
    exact h

theorem same_runActions (actions : List Action) (p : RequestStream) :
    Same p (runActions actions p).1 := by
  induction actions generalizing p with
  | nil => exact .refl p
  | cons a rest ih => exact (same_act p a).proceed (ih _)

theorem same_runHandler (hcloses : run.closes = none) (p : RequestStream) :
    Same p (runHandler run p).1 := by
  refine (same_runActions run.actions p).proceed ⟨rfl, ?_⟩
  simp [hcloses]

theorem same_attempt (hcloses : run.closes = none) (m : Message) (p : RequestStream) :
    Same p (p.attempt m run).1 := by
  unfold attempt
  split_ifs
  · have hran := same_runHandler hcloses { p with given := p.given ++ [m] }
    exact ⟨hran.maxReqLen, hran.closed⟩
  · exact .refl p

theorem same_handleInput (hcloses : run.closes = none) (m : Message) (p : RequestStream) :
    Same p (p.handleInput m run).1 := by
  refine (same_runActions run.since p).trans ?_
  unfold handleInput
  dsimp only
  split_ifs
  · unfold handleReply
    split_ifs
    · exact ⟨(same_runHandler hcloses _).maxReqLen, (same_runHandler hcloses _).closed⟩
    · exact .refl _
  · unfold handleCommand
    dsimp only
    split
    · exact same_attempt hcloses ..
    · exact (same_attempt hcloses ..).trans (same_respond ..)

theorem same_after (hcloses : ∀ k, (runs k).closes = none) (messages : List Message)
    (p : RequestStream) (k : Nat) : Same p (p.after runs messages k).1 := by
  induction k with
  | zero => exact .refl p
  | succ k ih =>
    refine ih.proceed ?_
    split
    · exact same_handleInput (hcloses k) ..
    · exact .refl _

/-! ## Error responses that do not fit -/

/-- `handle_input` has to respond to the message with an error, and the response is too long. -/
def Overlong (p : RequestStream) (m : Message) (run : HandlerRun) : Prop :=
  m.isResponse = false ∧ ∃ body,
    errorBody m ((runActions run.since p).1.attempt m run).2 = some body ∧
      p.maxReqLen < (string (encodeResponse m.reqId body true)).length

instance : Decidable (p.Overlong m run) :=
  decidable_of_iff (m.isResponse = false ∧
      (errorBody m ((runActions run.since p).1.attempt m run).2).any fun body =>
        decide (p.maxReqLen < (string (encodeResponse m.reqId body true)).length))
    (by simp [Overlong, Option.any_eq_true])

theorem respond_thrown (rid : Int64) (body : Bytes) (error : Bool) (p : RequestStream) :
    (p.respond rid body error).2.isSome = true ↔
      p.maxReqLen < (string (encodeResponse rid body error)).length := by
  unfold respond Send.frame sentRequestData Send.encode
  dsimp only
  split_ifs with hlong
  · simp [hlong]
  · simp [hlong]

/-- That is when an exception leaves `handle_input`. -/
theorem handleInput_thrown (hcloses : run.closes = none) (m : Message) (p : RequestStream) :
    (p.handleInput m run).2.isSome = true ↔ p.Overlong m run := by
  unfold handleInput Overlong
  dsimp only
  split_ifs with hm
  · simp [hm]
  · have hmax : ((runActions run.since p).1.attempt m run).1.maxReqLen = p.maxReqLen :=
      ((same_runActions run.since p).trans (same_attempt hcloses m _)).maxReqLen
    unfold handleCommand
    dsimp only
    cases hbody : errorBody m ((runActions run.since p).1.attempt m run).2 with
    | none => simp
    | some body =>
      dsimp only
      rw [respond_thrown, hmax]
      simp [hm]

theorem after_congr {messages messages' : List Message} {n k : Nat} (hk : k ≤ n)
    (h : ∀ i < n, messages[i]? = messages'[i]?) :
    p.after runs messages k = p.after runs messages' k := by
  induction k with
  | zero => rfl
  | succ k ih => rw [after, after, ih (by omega), h k (by omega)]

end RequestStream

end Libquic
