import Libquic.Lib.Bencode
import Libquic.Lib.Machine
import Libquic.Stream.Basic

/-!
# The buffer that a session ticket is stored in

`store_session_ticket` makes the buffer for the store callback before anything is written to it,
and counts the digits of the two lengths to know its size. The list is then written by a producer
that must not run out of it. `extract_session_data` reads what the extract callback returns. The
producer and the consumer are those of a library for bencoded lists.
-/
namespace Libquic

open Lib Lib.Bencode

structure SessionData where
  tlsSessionTicket : Bytes
  quicTransportParams : Bytes
  deriving DecidableEq, Repr

/-- A bencoded list of the two. -/
def SessionData.encode (d : SessionData) : Bytes :=
  list [d.tlsSessionTicket, d.quicTransportParams]

/-- The loop that counts the digits of the ticket's length from the second on. -/
def ticketlenLoop (x encoded : Nat) : Nat :=
  if x = 0 then encoded else ticketlenLoop (x / 10) (encoded + 1)

/-- The size of `session_data`. -/
def sessionDataSize (ticketSize tpSize : Nat) : Nat :=
  let ticketlenEncoded := ticketlenLoop (ticketSize / 10) 2
  let tplenEncoded := if 100 ≤ tpSize then 4 else if 10 ≤ tpSize then 3 else 2
  1 + ticketlenEncoded + ticketSize + tplenEncoded + tpSize + 1

section Model
variable {P C : Type} (O : ListLib P C Fault)

/-- The buffer, filled; the assertion at the end is that nothing is left of it. -/
def writeSessionData (ticket tp : Bytes) : Except Fault Bytes := do
  let size := sessionDataSize ticket.length tp.length
  let prod ← O.produce size
  let prod ← O.append ticket prod
  let prod ← O.append tp prod
  if (O.view prod).length = size then .ok (O.view prod) else .error .assertion

/-- `store_session_ticket`, up to the call of the store callback: the data and the expiry that it
is called with, if it is. `tp` is what ngtcp2 encodes, and `expireTime` what gnutls reports. -/
def storeSessionTicket (hasCallback : Bool) (ticket : Bytes) (tp : Option Bytes)
    (expireTime : Nat) : Except Fault (Option (Bytes × Nat)) :=
  if !hasCallback then .ok none
  else
    match tp with
    | none => .ok none
    | some tp =>
      if expireTime = 0 then .ok none
      else do
        let data ← writeSessionData O ticket tp
        .ok (some (data, expireTime * 1000000000))

/-- The end of `extract_session_data`: whatever is wrong with the data, there is no session. -/
def SessionData.decode (data : Bytes) : Option SessionData := do
  let cons ← O.consume data
  let (tls, cons) ← O.consumeString cons
  let (tp, cons) ← O.consumeString cons
  if !O.isFinished cons then none
  else if tls.isEmpty || tp.isEmpty then none
  else some ⟨tls, tp⟩

/-- `extract_session_data`, with what the extract callback does, if there is one: it throws, or
returns a buffer or nothing. -/
def extractSessionData (sessionExtract : Option (Except String (Option Bytes))) :
    Option SessionData :=
  match sessionExtract with
  | none => none
  | some (.error _) => none
  | some (.ok none) => none
  | some (.ok (some data)) => if data.isEmpty then none else SessionData.decode O data

end Model

/-! ## The size of the buffer -/

theorem ticketlenLoop_eq (x encoded : Nat) :
    ticketlenLoop x encoded = encoded + (Nat.digits 10 x).length := by
  fun_induction ticketlenLoop x encoded with
  | case1 encoded => simp
  | case2 x encoded hx ih =>
    rw [ih, Nat.digits_def' (by decide) (Nat.pos_of_ne_zero hx), List.length_cons]
    omega

theorem length_decimal (n : Nat) :
    (decimal n).length = 1 + (Nat.digits 10 (n / 10)).length := by
  unfold decimal
  split_ifs with hn
  · simp [hn]
  · rw [List.length_map, List.length_reverse,
      Nat.digits_def' (by decide) (Nat.pos_of_ne_zero hn), List.length_cons]
    omega

/-- The list fills it exactly. -/
theorem SessionData.length_encode (d : SessionData) (h : d.quicTransportParams.length ≤ 512) :
    d.encode.length = sessionDataSize d.tlsSessionTicket.length d.quicTransportParams.length := by
  have hshort : (Nat.digits 10 (d.quicTransportParams.length / 10)).length =
      if 100 ≤ d.quicTransportParams.length then 2
      else if 10 ≤ d.quicTransportParams.length then 1 else 0 := by
    split_ifs with h100 h10
    · rw [Nat.digits_def' (by decide) (by omega), Nat.digits_of_lt 10 _ (by omega) (by omega)]
      rfl
    · rw [Nat.digits_of_lt 10 _ (by omega) (by omega)]
      rfl
    · rw [Nat.div_eq_of_lt (by omega)]
      simp
  simp only [encode, list, string, List.flatMap_cons, List.flatMap_nil, List.length_cons,
    List.length_append, List.length_nil, length_decimal, hshort, sessionDataSize, ticketlenLoop_eq]
  split_ifs <;> omega

/-! ## Storing and reading -/

variable {P C : Type}

/-- The producer has room for both items, and then no room is left. -/
theorem writeSessionData_eq (O : ListLib P C Fault) (ticket : Bytes) {tp : Bytes}
    (htp : tp.length ≤ 512) :
    writeSessionData O ticket tp = .ok (SessionData.encode ⟨ticket, tp⟩) := by
  have hsize : (list [ticket, tp]).length = sessionDataSize ticket.length tp.length :=
    SessionData.length_encode ⟨ticket, tp⟩ htp
  have hempty : 2 ≤ (list [ticket]).length := by simp [list]
  have hfirst : (list [ticket]).length ≤ (list [ticket, tp]).length := by simp [list]
  obtain ⟨p, hp, hholds⟩ := O.produce_ok (sessionDataSize ticket.length tp.length)
    (hsize ▸ hempty.trans hfirst)
  obtain ⟨q, hq, hholds'⟩ := O.append_ok p _ [] ticket hholds (hsize ▸ hfirst)
  obtain ⟨r, hr, hholds''⟩ := O.append_ok q _ [ticket] tp hholds' hsize.le
  simp only [writeSessionData, hp, hq, hr, ok_bind]
  rw [O.view_eq r _ _ hholds'']
  exact if_pos hsize

/-- The transport parameters have at most the size of the buffer that ngtcp2 encodes them in. -/
theorem storeSessionTicket_eq (O : ListLib P C Fault) (ticket : Bytes) {tp : Bytes}
    (htp : tp.length ≤ 512) {expireTime : Nat} (hexpire : expireTime ≠ 0) :
    storeSessionTicket O true ticket (some tp) expireTime =
      .ok (some (SessionData.encode ⟨ticket, tp⟩, expireTime * 1000000000)) := by
  simp [storeSessionTicket, hexpire, writeSessionData_eq O ticket htp]

theorem extractSessionData_encode (O : ListLib P C Fault) (d : SessionData) :
    extractSessionData O (some (.ok (some d.encode))) =
      if d.tlsSessionTicket = [] ∨ d.quicTransportParams = [] then none else some d := by
  obtain ⟨c₀, hc₀, h₀⟩ := O.consume_list [d.tlsSessionTicket, d.quicTransportParams]
  obtain ⟨c₁, hc₁, h₁⟩ := O.consumeString_cons c₀ _ _ h₀
  obtain ⟨c₂, hc₂, h₂⟩ := O.consumeString_cons c₁ _ _ h₁
  have hfinished : O.isFinished c₂ = true := (O.isFinished_iff c₂ [] h₂).mpr rfl
  have hne : d.encode.isEmpty = false := rfl
  have hconsume : O.consume d.encode = some c₀ := hc₀
  simp [extractSessionData, hne, SessionData.decode, hconsume, hc₁, hc₂, hfinished]

/-- The buffer is made with the exact length of the list that is written to it, and reading it
gives the ticket and the parameters again, unless one of the two is empty. -/
theorem session_data_round_trip (O : ListLib P C Fault) (ticket tp : Bytes)
    (htp : tp.length ≤ 512) :
    (SessionData.encode ⟨ticket, tp⟩).length = sessionDataSize ticket.length tp.length ∧
      writeSessionData O ticket tp = .ok (SessionData.encode ⟨ticket, tp⟩) ∧
      extractSessionData O (some (.ok (some (SessionData.encode ⟨ticket, tp⟩)))) =
        if ticket = [] ∨ tp = [] then none else some ⟨ticket, tp⟩ :=
  ⟨SessionData.length_encode ⟨ticket, tp⟩ htp, writeSessionData_eq O ticket htp,
    extractSessionData_encode O ⟨ticket, tp⟩⟩

/-- A ticket of ten bytes, with parameters and without. -/
theorem session_data_round_trip_ten_bytes :
    (∃ data, writeSessionData (ListBuffer.lib .outOfRange) (List.replicate 10 7) [8] = .ok data ∧
      data.length = 18 ∧ extractSessionData (ListBuffer.lib .outOfRange) (some (.ok (some data))) =
        some ⟨List.replicate 10 7, [8]⟩) ∧
    ∃ data, writeSessionData (ListBuffer.lib .outOfRange) (List.replicate 10 7) [] = .ok data ∧
      data.length = 17 ∧
      extractSessionData (ListBuffer.lib .outOfRange) (some (.ok (some data))) = none := by
  obtain ⟨hsize, hwrite, hextract⟩ :=
    session_data_round_trip (ListBuffer.lib .outOfRange) (List.replicate 10 7) [8] (by simp)
  obtain ⟨hsize', hwrite', hextract'⟩ :=
    session_data_round_trip (ListBuffer.lib .outOfRange) (List.replicate 10 7) [] (by simp)
  refine ⟨⟨_, hwrite, ?_, hextract⟩, _, hwrite', ?_, hextract'⟩
  · rw [hsize]
    simp [sessionDataSize, ticketlenLoop]
  · rw [hsize']
    simp [sessionDataSize, ticketlenLoop]

end Libquic
