import Libquic.Lib.Bencode
import Libquic.Stream.Basic

/-!
# Request streams: incoming data

`BTRequestStream::receive` and the parser under it. Data arrives in chunks cut anywhere, so
the parser keeps the digits of an unfinished length prefix, the length of the message being
read and the part of it read so far. A complete message goes to `handle_input`, whose handlers
may close the stream or let an exception out; an exception ends the chunk and closes the stream.
-/
namespace Libquic

open Lib.Bencode

def maxReqLenEncoded : Nat := 10

def btreqErrorException : Nat := 777000105

/-! ## Accumulators -/

/-- How `prefix_accumulator` ends, and what is in `partial` then: without a size, with a size and
the data behind the colon, or with an exception. -/
inductive PrefixResult where
  | more (digits : Bytes)
  | size (n : Nat) (digits req : Bytes)
  | threw (digits : Bytes) (what : String)
  | fault (f : Fault)
  deriving DecidableEq, Repr

def prefixAccumulator (digits : Bytes) : Bytes → PrefixResult
  | [] => .more digits
  | c :: req =>
    if isDigit c then
      if maxReqLenEncoded < (digits ++ [c]).length then
        .threw (digits ++ [c]) "invalid encoded data length"
      else prefixAccumulator (digits ++ [c]) req
    else if c = colon then
      if 1 < digits.length ∧ digits.head? = some (digitChar 0) then
        .threw digits "bt-encoded string size cannot begin with 0"
      -- `from_chars` reports an error on an empty string
      else if digits = [] then .fault .assertion
      else .size (decimalValue digits) [] req
    else .threw digits "invalid input: expected bt-encoded data block"

/-- What `data_accumulator` leaves: the buffer, the data behind it, and if the message is
complete. -/
structure Accumulated where
  buf : Bytes
  req : Bytes
  complete : Bool
  deriving DecidableEq, Repr

def dataAccumulator (buf req : Bytes) (size : Nat) : Except Fault Accumulated :=
  if buf.length < size then
    let newSize := min (buf.length + req.length) size
    let buf' := buf ++ req.take (newSize - buf.length)
    .ok ⟨buf', req.drop (newSize - buf.length), buf'.length == size⟩
  else .error .assertion

/-! ## The stream -/

/-- What a handler does with a message, as seen by the parser: it may close the stream with an
application code, and an exception may leave `handle_input`. -/
structure Handling where
  closes : Option Nat := none
  throws : Option String := none
  deriving DecidableEq, Repr

/-- The surroundings of the parser: the size limit, the constructor of `message`, and the
handlers as a function of the messages seen so far, the current one last. -/
structure RequestEnv (μ : Type) where
  maxReqLen : Nat
  message : Bytes → Except String μ
  handleInput : List μ → Handling

/-- The error code the stream was closed with, and the number of messages handled by then. -/
structure Closed where
  code : Nat
  after : Nat
  deriving DecidableEq, Repr

structure Incoming (μ : Type) where
  sizeBuf : Bytes := []
  currentLen : Nat := 0
  buf : Bytes := []
  handled : List μ := []
  closed : Option Closed := none
  deriving DecidableEq, Repr

variable {μ : Type}

def Incoming.isClosing (s : Incoming μ) : Bool := s.closed.isSome

/-- Only the first close takes effect. -/
def Incoming.close (s : Incoming μ) (code : Nat) : Incoming μ :=
  if s.isClosing then s else { s with closed := some ⟨code, s.handled.length⟩ }

/-- How a piece of the parser ends. -/
inductive Outcome (μ : Type) where
  | done (s : Incoming μ)
  | threw (s : Incoming μ) (what : String)
  | fault (f : Fault)
  deriving DecidableEq, Repr

/-- `handle_input(message{…, std::move(buf)})` and the reset behind it. -/
def Incoming.handle (env : RequestEnv μ) (s : Incoming μ) : Outcome μ :=
  match env.message s.buf with
  | .error what => .threw { s with buf := [] } what
  | .ok m =>
    let s := { s with handled := s.handled ++ [m], buf := [] }
    let h := env.handleInput s.handled
    let s := match h.closes with
      | some code => s.close code
      | none => s
    match h.throws with
    | some what => .threw s what
    | none => .done { s with currentLen := 0 }

/-- One turn of the loop of `process_incoming`: it leaves the function, or goes on with the rest
of the data. -/
inductive Turn (μ : Type) where
  | stop (o : Outcome μ)
  | next (s : Incoming μ) (req : Bytes)
  deriving DecidableEq, Repr

/-- After a message the loop goes on with the data behind it. -/
def Outcome.resume (o : Outcome μ) (req : Bytes) : Turn μ :=
  match o with
  | .done s => .next s req
  | .threw s what => .stop (.threw s what)
  | .fault f => .stop (.fault f)

/-- The second half of a turn, reading the message itself. -/
def Incoming.body (env : RequestEnv μ) (s : Incoming μ) (req : Bytes) : Turn μ :=
  match dataAccumulator s.buf req s.currentLen with
  | .error f => .stop (.fault f)
  | .ok acc =>
    if acc.complete then ({ s with buf := acc.buf }.handle env).resume acc.req
    else .next { s with buf := acc.buf } acc.req

def Incoming.turn (env : RequestEnv μ) (s : Incoming μ) (req : Bytes) : Turn μ :=
  if s.currentLen = 0 then
    match prefixAccumulator s.sizeBuf req with
    | .more digits => .stop (.done { s with sizeBuf := digits })
    | .threw digits what => .stop (.threw { s with sizeBuf := digits } what)
    | .fault f => .stop (.fault f)
    | .size n digits req =>
      let s := { s with sizeBuf := digits, currentLen := n }
      -- an empty body: the function returns, whatever is left of the data
      if n = 0 then .stop (.done s)
      else if env.maxReqLen < n then .stop (.threw s "Request exceeds maximum size!")
      else s.body env req
  else s.body env req

/-- The loop. Every turn that goes on has used up data, so the length of the data is enough
fuel (`processLoop_fuel`). -/
def processLoop (env : RequestEnv μ) : Nat → Incoming μ → Bytes → Outcome μ
  | _, s, [] => .done s
  | 0, s, _ :: _ => .done s
  | fuel + 1, s, b :: req =>
    match s.turn env (b :: req) with
    | .stop o => o
    | .next s req => processLoop env fuel s req

def processIncoming (env : RequestEnv μ) (s : Incoming μ) (req : Bytes) : Outcome μ :=
  processLoop env req.length s req

def receive (env : RequestEnv μ) (s : Incoming μ) (data : Bytes) : Except Fault (Incoming μ) :=
  if s.isClosing then .ok s
  else match processIncoming env s data with
    | .done s => .ok s
    | .threw s _ => .ok (s.close btreqErrorException)
    | .fault f => .error f

def receiveAll (env : RequestEnv μ) (s : Incoming μ) (chunks : List Bytes) :
    Except Fault (Incoming μ) :=
  chunks.foldlM (receive env) s

/-! ## The turns -/

theorem prefixAccumulator_shrinks {digits req kept rest : Bytes} {n : Nat}
    (h : prefixAccumulator digits req = .size n kept rest) : rest.length < req.length := by
  fun_induction prefixAccumulator digits req with
  | case3 digits c req _ _ ih =>
    have := ih h
    simp only [List.length_cons]
    omega
  | case6 => cases h; simp
  | _ => cases h

theorem dataAccumulator_ok {buf req : Bytes} {size : Nat} {acc : Accumulated}
    (h : dataAccumulator buf req size = .ok acc) :
    buf.length < size ∧ acc.buf = buf ++ req.take (size - buf.length) ∧
      acc.req = req.drop (size - buf.length) ∧
      acc.complete = decide (size ≤ buf.length + req.length) := by
  unfold dataAccumulator at h
  split_ifs at h with hlt
  cases h
  refine ⟨hlt, ?_, ?_, ?_⟩
  · by_cases hall : size ≤ buf.length + req.length
    · rw [Nat.min_eq_right hall]
    · rw [Nat.min_eq_left (by omega), List.take_of_length_le (by omega),
        List.take_of_length_le (by omega)]
  · by_cases hall : size ≤ buf.length + req.length
    · rw [Nat.min_eq_right hall]
    · rw [Nat.min_eq_left (by omega), List.drop_of_length_le (by omega),
        List.drop_of_length_le (by omega)]
  · simp only [List.length_append, List.length_take]
    grind

theorem resume_eq_next {o : Outcome μ} {req rest : Bytes} {s : Incoming μ}
    (h : o.resume req = .next s rest) : rest = req := by
  cases o with
  | done => cases h; rfl
  | threw => cases h
  | fault => cases h

theorem body_shrinks {env : RequestEnv μ} {s s' : Incoming μ} {req rest : Bytes}
    (h : s.body env req = .next s' rest) : rest.length ≤ req.length - 1 := by
  have hrest : ∃ acc, dataAccumulator s.buf req s.currentLen = .ok acc ∧ rest = acc.req := by
    unfold Incoming.body at h
    split at h
    · cases h
    · rename_i acc hacc
      refine ⟨acc, hacc, ?_⟩
      split_ifs at h
      · exact resume_eq_next h
      · cases h; rfl
  obtain ⟨acc, hacc, rfl⟩ := hrest
  obtain ⟨hlt, -, hreq, -⟩ := dataAccumulator_ok hacc
  rw [hreq, List.length_drop]
  omega

theorem turn_shrinks {env : RequestEnv μ} {s s' : Incoming μ} {req rest : Bytes}
    (hreq : req ≠ []) (h : s.turn env req = .next s' rest) : rest.length < req.length := by
  have hpos := List.length_pos_of_ne_nil hreq
  unfold Incoming.turn at h
  split_ifs at h with hlen
  · split at h
    · cases h
    · cases h
    · cases h
    · rename_i n kept more hprefix
      have := prefixAccumulator_shrinks hprefix
      split_ifs at h
      have := body_shrinks h
      omega
  · have := body_shrinks h
    omega

theorem processLoop_fuel (env : RequestEnv μ) {fuel : Nat} {s : Incoming μ} {req : Bytes}
    (h : req.length ≤ fuel) : processLoop env fuel s req = processIncoming env s req := by
  unfold processIncoming
  induction fuel using Nat.strong_induction_on generalizing s req with
  | _ fuel ih =>
    match fuel, req with
    | _, [] => simp [processLoop]
    | 0, b :: req => simp at h
    | fuel + 1, b :: req =>
      simp only [List.length_cons, processLoop]
      cases hturn : s.turn env (b :: req) with
      | stop o => rfl
      | next s' rest =>
        have hlt := turn_shrinks (List.cons_ne_nil _ _) hturn
        simp only [List.length_cons] at h hlt
        -- both loops go on with at least as much fuel as data
        change processLoop env fuel s' rest = processLoop env req.length s' rest
        rw [ih fuel (by omega) (by omega)]
        exact (ih req.length (by omega) (by omega)).symm

@[simp] theorem processIncoming_nil (env : RequestEnv μ) (s : Incoming μ) :
    processIncoming env s [] = .done s := rfl

/-- The loop, one turn at a time. -/
theorem processIncoming_eq (env : RequestEnv μ) (s : Incoming μ) {req : Bytes} (h : req ≠ []) :
    processIncoming env s req = match s.turn env req with
      | .stop o => o
      | .next s rest => processIncoming env s rest := by
  obtain ⟨b, more, rfl⟩ := List.exists_cons_of_ne_nil h
  rw [processIncoming, List.length_cons, processLoop]
  cases hturn : s.turn env (b :: more) with
  | stop o => rfl
  | next s' rest =>
    have := turn_shrinks h hturn
    exact processLoop_fuel env (by simp at this; omega)

end Libquic
