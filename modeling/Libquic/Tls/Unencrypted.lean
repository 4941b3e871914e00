import Mathlib.Data.List.GetD
import Libquic.Lib.Framing
import Libquic.Stream.Basic

/-!
# The handshake of unencrypted connections

In place of a TLS handshake the peers exchange messages that consist of a magic value, a length of
two bytes and a payload. `ngtcp2` passes on the crypto stream of each level in chunks, which are
buffered until a message is complete. `unencrypted_handle_message` may do anything to the
connection and return any error, so it is a parameter. A run of calls ends with the first error,
after which the connection is closed.
-/
namespace Libquic

open Lib

variable {σ : Type}

/-- `ngtcp2_encryption_level` -/
inductive EncryptionLevel where
  | initial | handshake | oneRtt | zeroRtt
  deriving DecidableEq, Repr

/-- `NGTCP2_ERR_CALLBACK_FAILURE` -/
def errCallbackFailure : Int := -502

/-- `unencrypted_handshake_magic`: the letters of "nocrypt" and a version -/
def unencryptedHandshakeMagic : Bytes := [110, 111, 99, 114, 121, 112, 116, 1]

/-- `msg_header` -/
def msgHeader : Nat := unencryptedHandshakeMagic.length + 2

/-! ## Sending -/

/-- The end of `unencrypted_send`, which fills in the length. -/
def setPayloadLen (buf : Bytes) : Bytes :=
  let payloadLen := buf.length - msgHeader
  (buf.set (msgHeader - 2) (UInt8.ofNat (payloadLen >>> 8))).set (msgHeader - 1)
    (UInt8.ofNat (payloadLen &&& 255))

/-- The message that `unencrypted_send` submits, with what the transport parameters are encoded as
if they are to be sent. -/
def unencryptedSend (transportParams : Option (Except Int Bytes)) : Except Int Bytes :=
  let buf := unencryptedHandshakeMagic ++ [0, 0]
  match transportParams with
  | none => .ok (setPayloadLen buf)
  | some (.error rv) => .error rv
  | some (.ok encoded) => .ok (setPayloadLen (buf ++ encoded))

/-! ## Receiving -/

def payloadLen (buf : Bytes) : Nat :=
  (buf.getD (msgHeader - 2) 0).toNat <<< 8 ||| (buf.getD (msgHeader - 1) 0).toNat

/-- What the loop of `unencrypted_recv_crypto_data` leaves, and the payloads it has passed on. -/
structure RecvLoop (σ : Type) where
  rv : Int
  buf : Bytes
  conn : σ
  payloads : List Bytes

/-- The loop of `unencrypted_recv_crypto_data`. -/
def recvLoop (handle : Bytes → σ → Int × σ) (buf : Bytes) (conn : σ) (payloads : List Bytes) :
    RecvLoop σ :=
  if _hheader : buf.length < msgHeader then ⟨0, buf, conn, payloads⟩
  else if buf.take unencryptedHandshakeMagic.length ≠ unencryptedHandshakeMagic then
    ⟨errCallbackFailure, buf, conn, payloads⟩
  else if buf.length < msgHeader + payloadLen buf then ⟨0, buf, conn, payloads⟩
  else
    let payload := (buf.drop msgHeader).take (payloadLen buf)
    let r := handle payload conn
    if r.1 ≠ 0 then ⟨r.1, buf, r.2, payloads ++ [payload]⟩
    else recvLoop handle (buf.drop (msgHeader + payloadLen buf)) r.2 (payloads ++ [payload])
termination_by buf.length
decreasing_by
  have : msgHeader = 10 := rfl
  rw [List.length_drop]
  omega

/-- The buffers of a connection; `conn` is all that `unencrypted_handle_message` works on, and
`handled` are the payloads that have been passed to it. -/
structure UnencryptedConn (σ : Type) where
  rxInitial : Bytes := []
  rxHandshake : Bytes := []
  conn : σ
  handled : List (EncryptionLevel × Bytes) := []

namespace UnencryptedConn

variable (handle : EncryptionLevel → Bytes → σ → Int × σ)

def unencryptedRecvCryptoData (level : EncryptionLevel) (data : Bytes) (c : UnencryptedConn σ) :
    Int × UnencryptedConn σ :=
  match level with
  | .oneRtt => (0, c)
  | .zeroRtt => (errCallbackFailure, c)
  | .initial =>
    let r := recvLoop (handle .initial) (c.rxInitial ++ data) c.conn []
    (r.rv, { c with
      rxInitial := r.buf
      conn := r.conn
      handled := c.handled ++ r.payloads.map (.initial, ·) })
  | .handshake =>
    let r := recvLoop (handle .handshake) (c.rxHandshake ++ data) c.conn []
    (r.rv, { c with
      rxHandshake := r.buf
      conn := r.conn
      handled := c.handled ++ r.payloads.map (.handshake, ·) })

/-- Calls up to the first error. -/
def recvCalls : List (EncryptionLevel × Bytes) → UnencryptedConn σ → Int × UnencryptedConn σ
  | [], c => (0, c)
  | call :: calls, c =>
    let r := c.unencryptedRecvCryptoData handle call.1 call.2
    if r.1 ≠ 0 then r else recvCalls calls r.2

end UnencryptedConn

/-! ## Messages as frames -/

theorem payloadLen_append {buf : Bytes} (h : msgHeader ≤ buf.length) (more : Bytes) :
    payloadLen (buf ++ more) = payloadLen buf := by
  have : msgHeader = 10 := rfl
  unfold payloadLen
  rw [List.getD_append _ _ _ _ (by omega), List.getD_append _ _ _ _ (by omega)]

/-- The message at the front of a buffer. -/
def nextMessage (buf : Bytes) : Option (Nat × Except Int Bytes) :=
  if buf.length < msgHeader then none
  else if buf.take unencryptedHandshakeMagic.length ≠ unencryptedHandshakeMagic then
    some (msgHeader, .error errCallbackFailure)
  else if buf.length < msgHeader + payloadLen buf then none
  else some (msgHeader + payloadLen buf, .ok ((buf.drop msgHeader).take (payloadLen buf)))

theorem nextMessage_length {buf : Bytes} {n : Nat} {r : Except Int Bytes}
    (h : nextMessage buf = some (n, r)) : msgHeader ≤ n ∧ n ≤ buf.length := by
  unfold nextMessage at h
  split_ifs at h <;> grind

/-- Whether there is a message of some length depends on as many bytes. -/
theorem nextMessage_append {buf : Bytes} {n : Nat} (hheader : msgHeader ≤ n) (hn : n ≤ buf.length)
    (more : Bytes) (r : Except Int Bytes) :
    nextMessage (buf ++ more) = some (n, r) ↔ nextMessage buf = some (n, r) := by
  have hmagic : unencryptedHandshakeMagic.length ≤ msgHeader := by decide
  have hlen := payloadLen_append (hheader.trans hn) more
  have htake : (buf ++ more).take unencryptedHandshakeMagic.length =
      buf.take unencryptedHandshakeMagic.length := List.take_append_of_le_length (by omega)
  have hdrop : (buf ++ more).drop msgHeader = buf.drop msgHeader ++ more :=
    List.drop_append_of_le_length (by omega)
  have happend : (buf ++ more).length = buf.length + more.length := List.length_append
  have hwhole : ¬ (buf ++ more).length < msgHeader := by omega
  have hfront : ¬ buf.length < msgHeader := by omega
  unfold nextMessage
  rw [hlen, htake, hdrop, if_neg hwhole, if_neg hfront]
  split_ifs with hbad hmore hbuf hbuf
  · exact Iff.rfl
  · exact Iff.rfl
  · omega
  · -- the message is not within the first `n` bytes
    refine iff_of_false ?_ (by simp)
    intro h
    obtain ⟨rfl, -⟩ := Prod.mk.inj (Option.some.inj h)
    omega
  · have hpayload : (buf.drop msgHeader ++ more).take (payloadLen buf) =
        (buf.drop msgHeader).take (payloadLen buf) :=
      List.take_append_of_le_length (by rw [List.length_drop]; omega)
    rw [hpayload]

/-- The messages of a crypto stream. -/
def unencryptedFraming : Framing UInt8 Bytes Int where
  next := nextMessage
  pos h := by
    have hheader := (nextMessage_length h).1
    unfold msgHeader at hheader
    omega
  length_le h := (nextMessage_length h).2
  extend h more := by
    obtain ⟨hheader, hle⟩ := nextMessage_length h
    exact (nextMessage_append hheader hle more _).mpr h
  take {buf n r} h := by
    obtain ⟨hheader, hle⟩ := nextMessage_length h
    refine (nextMessage_append hheader ?_ (buf.drop n) r).mp ?_
    · rw [List.length_take]
      omega
    · rwa [List.take_append_drop]

/-- An error of the handler is a value other than zero. -/
def failure (handle : Bytes → σ → Int × σ) (payload : Bytes) (conn : σ) : Option Int × σ :=
  let r := handle payload conn
  (if r.1 = 0 then none else some r.1, r.2)

/-- The value that is returned. -/
def returned (error : Option (Int × Nat)) : Int := error.elim 0 Prod.fst

@[simp] theorem returned_after (o : Framing.Outcome UInt8 Bytes Int σ) (payloads : List Bytes)
    (n : Nat) : returned (o.after payloads n).error = returned o.error := by
  unfold Framing.Outcome.after returned
  cases o.error <;> rfl

/-- The loop drains the buffer of messages. -/
theorem recvLoop_eq (handle : Bytes → σ → Int × σ) (buf : Bytes) (conn : σ)
    (payloads : List Bytes) :
    recvLoop handle buf conn payloads =
      let o := unencryptedFraming.drain (failure handle) buf conn
      ⟨returned o.error, o.rest, o.state, payloads ++ o.frames⟩ := by
  fun_induction recvLoop handle buf conn payloads with
  | case1 buf conn payloads hheader =>
    have hnext : unencryptedFraming.next buf = none := if_pos hheader
    simp [Framing.drain_of_none hnext, returned]
  | case2 buf conn payloads hheader hbad =>
    have hnext : unencryptedFraming.next buf = some (msgHeader, .error errCallbackFailure) := by
      simp only [unencryptedFraming, nextMessage, if_neg hheader, if_pos hbad]
    simp [Framing.drain_of_error hnext, returned]
  | case3 buf conn payloads hheader hmagic hshort =>
    have hnext : unencryptedFraming.next buf = none := by
      simp only [unencryptedFraming, nextMessage, if_neg hheader, if_neg hmagic, if_pos hshort]
    simp [Framing.drain_of_none hnext, returned]
  | case4 buf conn payloads hheader hmagic hwhole payload r hr =>
    have hnext : unencryptedFraming.next buf = some (msgHeader + payloadLen buf, .ok payload) := by
      simp only [unencryptedFraming, nextMessage, if_neg hheader, if_neg hmagic, if_neg hwhole]
      rfl
    have hfail : (failure handle payload conn).1 = some r.1 := if_neg hr
    simp [Framing.drain_of_fail hnext hfail, returned, failure, r]
  | case5 buf conn payloads hheader hmagic hwhole payload r hr ih =>
    have hnext : unencryptedFraming.next buf = some (msgHeader + payloadLen buf, .ok payload) := by
      simp only [unencryptedFraming, nextMessage, if_neg hheader, if_neg hmagic, if_neg hwhole]
      rfl
    have hok : (failure handle payload conn).1 = none := if_pos (not_not.mp hr)
    simp only [ih, Framing.drain_of_ok hnext hok, returned_after]
    simp [Framing.Outcome.after, failure, r]

/-- Every error has a value other than zero. -/
theorem drain_error_ne_zero (handle : Bytes → σ → Int × σ) (buf : Bytes) (conn : σ)
    {x : Int × Nat} (h : (unencryptedFraming.drain (failure handle) buf conn).error = some x) :
    x.1 ≠ 0 := by
  induction buf, conn using Framing.drain_cases unencryptedFraming (failure handle)
    generalizing x with
  | hnone buf conn hnext => simp [Framing.drain_of_none hnext] at h
  | herror buf conn n e hnext =>
    rw [Framing.drain_of_error hnext] at h
    obtain rfl := Option.some.inj h
    simp only [unencryptedFraming, nextMessage] at hnext
    split_ifs at hnext
    · simp only [Option.some.injEq, Prod.mk.injEq, Except.error.injEq] at hnext
      rw [← hnext.2]
      exact (by decide : errCallbackFailure ≠ 0)
    · simp at hnext
  | hfail buf conn n payload e hnext hfail =>
    rw [Framing.drain_of_fail hnext hfail] at h
    obtain rfl := Option.some.inj h
    unfold failure at hfail
    grind
  | hok buf conn n payload hnext hok ih =>
    rw [Framing.drain_of_ok hnext hok] at h
    obtain ⟨y, hy, rfl⟩ := Option.map_eq_some_iff.mp h
    exact ih (x := y) hy

theorem returned_eq_zero_iff (handle : Bytes → σ → Int × σ) (buf : Bytes) (conn : σ) :
    returned (unencryptedFraming.drain (failure handle) buf conn).error = 0 ↔
      (unencryptedFraming.drain (failure handle) buf conn).error = none := by
  cases herror : (unencryptedFraming.drain (failure handle) buf conn).error with
  | none => simp [returned]
  | some x => simpa [returned] using drain_error_ne_zero handle buf conn herror

/-! ## Calls -/

namespace UnencryptedConn

/-- The levels that have a handshake. -/
def Crypto (level : EncryptionLevel) : Prop := level = .initial ∨ level = .handshake

/-- The buffer of a level that has one. -/
def rx (level : EncryptionLevel) (c : UnencryptedConn σ) : Bytes :=
  if level = .initial then c.rxInitial else c.rxHandshake

/-- The connection after an outcome for the stream of a level. -/
def put (level : EncryptionLevel) (o : Framing.Outcome UInt8 Bytes Int σ)
    (c : UnencryptedConn σ) : UnencryptedConn σ where
  rxInitial := if level = .initial then o.rest else c.rxInitial
  rxHandshake := if level = .initial then c.rxHandshake else o.rest
  conn := o.state
  handled := c.handled ++ o.frames.map (level, ·)

variable {level : EncryptionLevel} {c c' : UnencryptedConn σ}
  {handle : EncryptionLevel → Bytes → σ → Int × σ}

@[simp] theorem rx_put (o : Framing.Outcome UInt8 Bytes Int σ) :
    (c.put level o).rx level = o.rest := by
  unfold rx put
  split_ifs <;> rfl

@[simp] theorem conn_put (o : Framing.Outcome UInt8 Bytes Int σ) :
    (c.put level o).conn = o.state := rfl

theorem rx_put_of_ne {level' : EncryptionLevel} (hlevel : Crypto level) (hlevel' : Crypto level')
    (hne : level' ≠ level) (o : Framing.Outcome UInt8 Bytes Int σ) :
    (c.put level o).rx level' = c.rx level' := by
  rcases hlevel with rfl | rfl <;> rcases hlevel' with rfl | rfl <;> simp_all [put, rx]

theorem put_put (o o' : Framing.Outcome UInt8 Bytes Int σ) (n : Nat) :
    (c.put level o).put level o' = c.put level (o'.after o.frames n) := by
  unfold put Framing.Outcome.after
  split_ifs <;> simp

theorem put_rest (hlevel : Crypto level) :
    c.put level { state := c.conn, rest := c.rx level } = c := by
  rcases hlevel with rfl | rfl <;> simp [put, rx]

/-- A call drains the buffer of its level. -/
theorem unencryptedRecvCryptoData_eq (hlevel : Crypto level) (data : Bytes) :
    c.unencryptedRecvCryptoData handle level data =
      let o := unencryptedFraming.drain (failure (handle level)) (c.rx level ++ data) c.conn
      (returned o.error, c.put level o) := by
  rcases hlevel with rfl | rfl <;>
    simp [unencryptedRecvCryptoData, recvLoop_eq, put, rx]

/-- Calls for one level feed its stream. -/
theorem recvCalls_eq (hlevel : Crypto level) (chunks : List Bytes) :
    recvCalls handle (chunks.map (level, ·)) c =
      let o := unencryptedFraming.feed (failure (handle level)) chunks (c.rx level) c.conn
      (returned o.error, c.put level o) := by
  induction chunks generalizing c with
  | nil => simp [recvCalls, Framing.feed, returned, put_rest hlevel]
  | cons chunk chunks ih =>
    rw [List.map_cons, recvCalls, unencryptedRecvCryptoData_eq hlevel]
    simp only [Framing.feed]
    cases herror : (unencryptedFraming.drain (failure (handle level)) (c.rx level ++ chunk)
        c.conn).error with
    | none =>
      rw [Framing.Outcome.andThen_of_none herror, if_neg (by simp [returned]), ih]
      simp only [rx_put, conn_put, returned_after]
      exact congrArg (Prod.mk _) (put_put ..)
    | some x =>
      have hne := drain_error_ne_zero _ _ _ herror
      rw [Framing.Outcome.andThen_of_some herror, herror]
      simp [returned, hne]

/-- No buffer holds a whole message. -/
def Drained (c : UnencryptedConn σ) : Prop :=
  ∀ level, Crypto level → unencryptedFraming.next (c.rx level) = none

theorem Drained.recv (h : c.Drained) {data : Bytes}
    (hok : (c.unencryptedRecvCryptoData handle level data).1 = 0) :
    (c.unencryptedRecvCryptoData handle level data).2.Drained := by
  by_cases hlevel : Crypto level
  · rw [unencryptedRecvCryptoData_eq hlevel] at hok ⊢
    have hrest := Framing.next_rest _ _ _ _ ((returned_eq_zero_iff _ _ _).mp hok)
    intro level' hlevel'
    by_cases hsame : level' = level
    · rw [hsame, rx_put]
      exact hrest
    · rw [rx_put_of_ne hlevel hlevel' hsame]
      exact h level' hlevel'
  · cases level <;> simp_all [unencryptedRecvCryptoData, Crypto, errCallbackFailure]

theorem Drained.calls (h : c.Drained) {calls : List (EncryptionLevel × Bytes)}
    (hok : recvCalls handle calls c = (0, c')) : c'.Drained := by
  induction calls generalizing c with
  | nil =>
    cases hok
    exact h
  | cons call calls ih =>
    rw [recvCalls] at hok
    split_ifs at hok with hne
    · rw [hok] at hne
      exact absurd rfl hne
    · exact ih (h.recv (not_not.mp hne)) hok

theorem drained_start (s : σ) : Drained { conn := s } := by
  intro level _
  have hempty : rx level { conn := s } = [] := by simp [rx]
  rw [hempty]
  exact Framing.next_nil _

/-- The first error in a stream that goes on at a level: its value, and the number of bytes after
which it is returned. -/
def firstError (handle : EncryptionLevel → Bytes → σ → Int × σ) (level : EncryptionLevel)
    (c : UnencryptedConn σ) (stream : Bytes) : Option (Int × Nat) :=
  (unencryptedFraming.drain (failure (handle level)) (c.rx level ++ stream) c.conn).error.map
    fun x => (x.1, x.2 - (c.rx level).length)

/-- The calls return the first error as soon as its last byte has been received. -/
theorem recvCalls_take (hlevel : Crypto level) (hc : c.Drained) (chunks : List Bytes) (k : Nat) :
    (recvCalls handle ((chunks.take k).map (level, ·)) c).1 =
      returned ((firstError handle level c chunks.flatten).filter
        fun x => x.2 ≤ (chunks.take k).flatten.length) := by
  have hsplit : c.rx level ++ chunks.flatten =
      (c.rx level ++ (chunks.take k).flatten) ++ (chunks.drop k).flatten := by
    rw [List.append_assoc, ← List.flatten_append, List.take_append_drop]
  have hsame := Framing.feed_same unencryptedFraming (failure (handle level)) c.conn
    (chunks.take k) (hc level hlevel)
  rw [recvCalls_eq hlevel]
  simp only [hsame.error]
  rw [Framing.error_append _ _ _ _ (chunks.drop k).flatten, ← hsplit, firstError]
  cases (unencryptedFraming.drain (failure (handle level)) (c.rx level ++ chunks.flatten)
      c.conn).error with
  | none => rfl
  | some x =>
    have hiff : x.2 ≤ (c.rx level ++ (chunks.take k).flatten).length ↔
        x.2 - (c.rx level).length ≤ (chunks.take k).flatten.length := by
      rw [List.length_append]
      omega
    simp only [Option.map_some, Option.filter_some, hiff]
    split_ifs <;> rfl

end UnencryptedConn

/-! ## Sent messages -/

theorem unencryptedSend_ok {params : Option Bytes} {msg : Bytes}
    (h : unencryptedSend (params.map .ok) = .ok msg) :
    msg = unencryptedHandshakeMagic ++ [UInt8.ofNat ((params.getD []).length >>> 8),
      UInt8.ofNat ((params.getD []).length &&& 255)] ++ params.getD [] := by
  cases params with
  | none =>
    cases h
    decide
  | some encoded =>
    cases h
    simp [setPayloadLen, msgHeader, unencryptedHandshakeMagic]

/-- Two bytes are enough for the length. -/
theorem payloadLen_bytes {n : Nat} (h : n < 65536) :
    (UInt8.ofNat (n >>> 8)).toNat <<< 8 ||| (UInt8.ofNat (n &&& 255)).toNat = n := by
  have hlow : n &&& 255 = n % 256 := Nat.and_two_pow_sub_one_eq_mod n 8
  rw [UInt8.toNat_ofNat', UInt8.toNat_ofNat', hlow, Nat.shiftRight_eq_div_pow,
    ← Nat.shiftLeft_add_eq_or_of_lt (by omega), Nat.shiftLeft_eq]
  omega

/-- A message is found in front of anything. -/
theorem nextMessage_sent {params : Option Bytes} {msg : Bytes}
    (h : unencryptedSend (params.map .ok) = .ok msg) (hlen : (params.getD []).length < 65536)
    (more : Bytes) : nextMessage (msg ++ more) = some (msg.length, .ok (params.getD [])) := by
  have hmsg := unencryptedSend_ok h
  generalize params.getD [] = payload at *
  have hpayloadLen : payloadLen (msg ++ more) = payload.length := by
    rw [← payloadLen_bytes hlen, hmsg]
    simp [payloadLen, msgHeader, unencryptedHandshakeMagic]
  have hlength : msg.length = msgHeader + payload.length := by
    simp [hmsg, msgHeader]
    omega
  have hmagic :
      (msg ++ more).take unencryptedHandshakeMagic.length = unencryptedHandshakeMagic := by
    rw [hmsg, List.append_assoc, List.append_assoc]
    exact List.take_left
  have hpayload : (msg ++ more).drop msgHeader = payload ++ more := by
    rw [hmsg, List.append_assoc]
    exact List.drop_left' rfl
  unfold nextMessage
  rw [hpayloadLen, hpayload, List.take_left, hmagic, List.length_append, if_neg (by omega),
    if_neg (not_not.mpr rfl), if_neg (by omega), hlength]

/-- Messages and their payloads, as frames. -/
theorem frames_of_sent {sent : List (Option Bytes)} {msgs : List Bytes}
    (h : List.Forall₂ (fun params msg => unencryptedSend (params.map .ok) = .ok msg) sent msgs)
    (hlen : ∀ params ∈ sent, ∀ encoded ∈ params, encoded.length ≤ 512) :
    ∃ frames : List (Bytes × Bytes), frames.map Prod.fst = msgs ∧
      frames.map Prod.snd = sent.map (·.getD []) ∧
      ∀ f ∈ frames, ∀ more, unencryptedFraming.next (f.1 ++ more) = some (f.1.length, .ok f.2) := by
  induction h with
  | nil => exact ⟨[], rfl, rfl, by simp⟩
  | @cons params msg sent msgs hmsg _ ih =>
    obtain ⟨frames, hmsgs, hpayloads, hframes⟩ := ih fun p hp => hlen p (by simp [hp])
    have hparams : (params.getD []).length < 65536 := by
      cases params with
      | none => decide
      | some encoded =>
        have := hlen (some encoded) (by simp) encoded rfl
        exact this.trans_lt (by decide)
    refine ⟨(msg, params.getD []) :: frames, by simp [hmsgs], by simp [hpayloads], ?_⟩
    intro f hf more
    rcases List.mem_cons.mp hf with rfl | hrest
    · exact nextMessage_sent hmsg hparams more
    · exact hframes f hrest more

namespace UnencryptedConn

variable {level : EncryptionLevel} {c : UnencryptedConn σ}
  {handle : EncryptionLevel → Bytes → σ → Int × σ}

/-- The same value, payloads and connection, and the same buffers unless there was an error. -/
structure Agree (r r' : Int × UnencryptedConn σ) : Prop where
  rv : r.1 = r'.1
  handled : r.2.handled = r'.2.handled
  conn : r.2.conn = r'.2.conn
  buffers : r'.1 = 0 → r = r'

/-- The cuts of a crypto stream do not matter. -/
theorem recvCalls_agree (hlevel : Crypto level) (hc : c.Drained) (chunks : List Bytes) :
    Agree (recvCalls handle (chunks.map (level, ·)) c)
      (c.unencryptedRecvCryptoData handle level chunks.flatten) := by
  have hsame := Framing.feed_same unencryptedFraming (failure (handle level)) c.conn chunks
    (hc level hlevel)
  rw [recvCalls_eq hlevel, unencryptedRecvCryptoData_eq hlevel]
  refine ⟨congrArg returned hsame.error, ?_, hsame.state, ?_⟩
  · simp only [put, hsame.frames]
  · intro hok
    have hnone := (returned_eq_zero_iff _ _ _).mp hok
    simp only [put, hsame.error, hsame.rest hnone, hsame.state, hsame.frames]

/-- For whatever has been received before: what is passed on of the stream of a level and what is
returned is the same for every cut into chunks, and the first error, which is one of the bytes
alone, is returned by the call that brings its last byte. Messages that were sent are found again
and leave nothing. -/
theorem crypto_stream_by_bytes {s : σ} {before : List (EncryptionLevel × Bytes)}
    (hlevel : Crypto level) (h : recvCalls handle before { conn := s } = (0, c)) :
    (∀ chunks : List Bytes,
      Agree (recvCalls handle (chunks.map (level, ·)) c)
        (c.unencryptedRecvCryptoData handle level chunks.flatten) ∧
      ∀ k, (recvCalls handle ((chunks.take k).map (level, ·)) c).1 =
        returned ((firstError handle level c chunks.flatten).filter
          fun x => x.2 ≤ (chunks.take k).flatten.length)) ∧
    (c.rx level = [] → ∀ (sent : List (Option Bytes)) (msgs chunks : List Bytes),
        (∀ params ∈ sent, ∀ conn, (handle level (params.getD []) conn).1 = 0) →
        (∀ params ∈ sent, ∀ encoded ∈ params, encoded.length ≤ 512) →
        List.Forall₂ (fun params msg => unencryptedSend (params.map .ok) = .ok msg) sent msgs →
        chunks.flatten = msgs.flatten →
        ∃ c', recvCalls handle (chunks.map (level, ·)) c = (0, c') ∧
          c'.handled = c.handled ++ sent.map (fun params => (level, params.getD [])) ∧
          c'.rx level = []) := by
  have hc := (drained_start s).calls h
  refine ⟨fun chunks => ⟨recvCalls_agree hlevel hc chunks, recvCalls_take hlevel hc chunks⟩, ?_⟩
  intro hempty sent msgs chunks hok hlen hsent hchunks
  obtain ⟨frames, hmsgs, hpayloads, hframes⟩ := frames_of_sent hsent hlen
  have hhandle : ∀ f ∈ frames, ∀ conn, (failure (handle level) f.2 conn).1 = none := by
    intro f hf conn
    have hmem : f.2 ∈ sent.map (·.getD []) := hpayloads ▸ List.mem_map_of_mem hf
    obtain ⟨params, hparams, heq⟩ := List.mem_map.mp hmem
    exact if_pos (heq ▸ hok params hparams conn)
  obtain ⟨state, hdrain⟩ := Framing.drain_frames hhandle hframes c.conn
  have hwhole : c.unencryptedRecvCryptoData handle level chunks.flatten =
      (0, c.put level { frames := frames.map Prod.snd, state := state, rest := [] }) := by
    rw [unencryptedRecvCryptoData_eq hlevel, hempty, List.nil_append, hchunks, ← hmsgs, hdrain]
    rfl
  have hsplit : recvCalls handle (chunks.map (level, ·)) c =
      c.unencryptedRecvCryptoData handle level chunks.flatten :=
    (recvCalls_agree hlevel hc chunks).buffers (by rw [hwhole])
  refine ⟨_, hsplit.trans hwhole, ?_, rx_put _⟩
  simp [put, hpayloads]

/-- Two messages in three chunks, cut within the magic value and before the end of the first. -/
theorem crypto_stream_by_bytes_three_chunks :
    ∃ c' : UnencryptedConn Unit,
      recvCalls (fun _ payload conn => (if payload.length ≤ 2 then 0 else -1, conn))
        [(.initial, [110, 111, 99]), (.initial, [114, 121, 112, 116, 1, 0, 2, 5]),
          (.initial, [6, 110, 111, 99, 114, 121, 112, 116, 1, 0, 0])] { conn := () } = (0, c') ∧
      c'.handled = [(.initial, [5, 6]), (.initial, [])] ∧ c'.rx .initial = [] := by
  have hstart : recvCalls
      (fun _ payload (conn : Unit) => (if payload.length ≤ 2 then 0 else -1, conn)) []
      { conn := () } = (0, { conn := () }) := rfl
  have hmain := crypto_stream_by_bytes (Or.inl rfl : Crypto .initial) hstart
  exact hmain.2 rfl [some [5, 6], none]
    [[110, 111, 99, 114, 121, 112, 116, 1, 0, 2, 5, 6],
      [110, 111, 99, 114, 121, 112, 116, 1, 0, 0]]
    [[110, 111, 99], [114, 121, 112, 116, 1, 0, 2, 5],
      [6, 110, 111, 99, 114, 121, 112, 116, 1, 0, 0]]
    (by simp) (by simp) (.cons rfl (.cons rfl .nil)) rfl

end UnencryptedConn

end Libquic
