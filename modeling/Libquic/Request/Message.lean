import Libquic.Request.Incoming

/-!
# Request streams: messages

The bencoded list inside a frame: what `encode_command` and `encode_response` write, what the
constructor of `message` reads, and the length-prefixed frame that `sent_request` makes of it.
-/
namespace Libquic

open Lib.Bencode

def typeReply : Bytes := [82]

def typeError : Bytes := [69]

def typeCommand : Bytes := [67]

structure Message where
  type : Bytes
  reqId : Int64
  endpoint : Bytes
  body : Bytes
  deriving DecidableEq, Repr

/-! ## Reading -/

/-- `consume_integer<int64_t>` refuses what does not fit. -/
def consumeInt64 (data : Bytes) : Option (Int64 × Bytes) :=
  (readInteger data).bind fun r =>
    if Int64.minValue.toInt ≤ r.1 ∧ r.1 ≤ Int64.maxValue.toInt then some (Int64.ofInt r.1, r.2)
    else none

/-- Only a command has an endpoint. -/
def consumeEndpoint (type data : Bytes) : Option (Bytes × Bytes) :=
  if type = typeCommand then readString data else some ([], data)

/-- The items of the list, up to its end. -/
def consumeItems (data : Bytes) : Option (Message × Bytes) := do
  let (type, data) ← readString data
  let (reqId, data) ← consumeInt64 data
  let (endpoint, data) ← consumeEndpoint type data
  let (body, data) ← readString data
  return (⟨type, reqId, endpoint, body⟩, data)

def Message.parse (data : Bytes) : Except String Message :=
  if data.head? = some charL then
    match consumeItems data.tail with
    | some (m, rest) => if rest = [charE] then .ok m else .error "expected end of list"
    | none => .error "expected a bt-encoded value"
  else .error "expected a list"

/-! ## Writing -/

def encodeCommand (endpoint : Bytes) (rid : Int64) (body : Bytes) : Bytes :=
  charL :: (string typeCommand ++ (integer rid.toInt ++ (string endpoint ++ (string body ++ [charE]))))

def encodeResponse (rid : Int64) (body : Bytes) (error : Bool) : Bytes :=
  charL :: (string (if error then typeError else typeReply) ++
    (integer rid.toInt ++ (string body ++ [charE])))

/-- The `data` of a new `sent_request`. -/
def sentRequestData (maxReqLen : Nat) (d : Bytes) : Except String Bytes :=
  if maxReqLen < (string d).length then .error "Request body too long!" else .ok (string d)

/-- What an application asks a request stream to send. -/
inductive Send where
  | command (endpoint : Bytes) (rid : Int64) (body : Bytes)
  | response (rid : Int64) (body : Bytes) (error : Bool)
  deriving DecidableEq, Repr

def Send.encode : Send → Bytes
  | .command endpoint rid body => encodeCommand endpoint rid body
  | .response rid body error => encodeResponse rid body error

def Send.frame (maxReqLen : Nat) (x : Send) : Except String Bytes := sentRequestData maxReqLen x.encode

/-- The message the other side should see. -/
def Send.toMessage : Send → Message
  | .command endpoint rid body => ⟨typeCommand, rid, endpoint, body⟩
  | .response rid body error => ⟨if error then typeError else typeReply, rid, [], body⟩

theorem consumeInt64_integer (k : Int64) (rest : Bytes) :
    consumeInt64 (integer k.toInt ++ rest) = some (k, rest) := by
  have hrange : Int64.minValue.toInt ≤ k.toInt ∧ k.toInt ≤ Int64.maxValue.toInt :=
    ⟨k.minValue_le_toInt, k.toInt_le⟩
  rw [consumeInt64, readInteger_integer, Option.bind_some, if_pos hrange, Int64.ofInt_toInt]

theorem parse_encode (x : Send) : Message.parse x.encode = .ok x.toMessage := by
  cases x with
  | command endpoint rid body =>
    simp [Send.encode, Send.toMessage, Message.parse, encodeCommand, consumeItems, consumeEndpoint,
      readString_string, consumeInt64_integer]
  | response rid body error =>
    have htype : (if error then typeError else typeReply) ≠ typeCommand := by cases error <;> decide
    simp [Send.encode, Send.toMessage, Message.parse, encodeResponse, consumeItems, consumeEndpoint,
      readString_string, consumeInt64_integer, htype]

theorem frame_eq_ok {maxReqLen : Nat} {x : Send} {data : Bytes} (h : x.frame maxReqLen = .ok data) :
    data = string x.encode ∧ (string x.encode).length ≤ maxReqLen := by
  unfold Send.frame sentRequestData at h
  split_ifs at h with hlen
  exact ⟨(Except.ok.inj h).symm, Nat.le_of_not_lt hlen⟩

theorem encode_ne_nil (x : Send) : x.encode ≠ [] := by
  cases x <;> simp [Send.encode, encodeCommand, encodeResponse]

end Libquic
