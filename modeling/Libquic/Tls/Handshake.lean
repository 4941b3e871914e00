import Libquic.Lib.Machine
import Libquic.Tls.Unencrypted

/-!
# Two unencrypted peers

`unencrypted_handle_message` at both ends of a connection. The client's first message carries its
transport parameters, the server answers at both levels, and the client's empty message at the
handshake level is what completes the handshake of the server.

ngtcp2 passes on each crypto stream in order and in chunks of any size, the streams of different
levels and directions in any interleaving, but nothing of the handshake level before its key has
been installed. What it answers to a peer's calls is a parameter; a peer to which it has returned
an error receives no more.
-/
namespace Libquic

open Lib

/-- The keys that are installed after the first ones. -/
inductive NullKey where
  | rxHandshake | txHandshake | rx | tx
  deriving DecidableEq, Repr

/-- What ngtcp2 answers to the calls of a peer. -/
structure Ngtcp2Answers where
  /-- `ngtcp2_conn_encode_local_transport_params` -/
  localParams : Except Int Bytes
  /-- `ngtcp2_conn_decode_and_set_remote_transport_params` -/
  readParams : Bytes → Int
  installKey : NullKey → Int
  /-- `ngtcp2_conn_submit_crypto_data` -/
  submit : EncryptionLevel → Int

/-- What `unencrypted_handle_message` works on. `submitted` is what ngtcp2 has taken over; it does
not copy the data, and sends what stands in the buffer by then. -/
structure NullPeer where
  inbound : Bool
  remoteParams : Option Bytes := none
  keys : List NullKey := []
  txInitial : Bytes := []
  txHandshake : Bytes := []
  submitted : List (EncryptionLevel × Bytes) := []
  /-- the calls of `ngtcp2_conn_tls_handshake_completed` -/
  completed : Nat := 0
  deriving DecidableEq, Repr

/-- Goes on unless an error is to be returned. -/
def andThen {σ : Type} (r : Int × σ) (f : σ → Int × σ) : Int × σ := if r.1 ≠ 0 then r else f r.2

namespace NullPeer

variable (a : Ngtcp2Answers)

/-- `Connection::unencrypted_send` -/
def send (level : EncryptionLevel) (withTransportParams : Bool) (c : NullPeer) : Int × NullPeer :=
  match unencryptedSend (if withTransportParams then some a.localParams else none) with
  | .error rv => (rv, c)
  | .ok buf =>
    let c :=
      if level = .initial then { c with txInitial := buf } else { c with txHandshake := buf }
    if a.submit level ≠ 0 then (a.submit level, c)
    else (0, { c with submitted := c.submitted ++ [(level, buf)] })

def installKey (key : NullKey) (c : NullPeer) : Int × NullPeer :=
  if a.installKey key ≠ 0 then (a.installKey key, c) else (0, { c with keys := c.keys ++ [key] })

def readParams (payload : Bytes) (c : NullPeer) : Int × NullPeer :=
  if a.readParams payload ≠ 0 then (a.readParams payload, c)
  else (0, { c with remoteParams := some payload })

/-- `Connection::unencrypted_complete_handshake`, which ignores errors -/
def unencryptedCompleteHandshake (c : NullPeer) : NullPeer :=
  let c := (c.installKey a .rx).2
  let c := if c.inbound then c else (c.installKey a .tx).2
  { c with completed := c.completed + 1 }

def unencryptedHandleMessage (level : EncryptionLevel) (payload : Bytes) (c : NullPeer) :
    Int × NullPeer :=
  if level = .initial then
    let r := if c.inbound && !payload.isEmpty then c.readParams a payload else (0, c)
    andThen r fun c =>
    andThen (c.installKey a .rxHandshake) fun c =>
    andThen (c.installKey a .txHandshake) fun c =>
    if c.inbound then
      andThen (c.installKey a .tx) fun c =>
      andThen (c.send a .initial false) fun c =>
      c.send a .handshake true
    else (0, c)
  else
    let r := if !payload.isEmpty then c.readParams a payload else (0, c)
    andThen r fun c =>
    andThen (if !c.inbound then c.send a .handshake false else (0, c)) fun c =>
    (0, c.unencryptedCompleteHandshake a)

/-- `Connection::unencrypted_client_initial` -/
def unencryptedClientInitial (c : NullPeer) : Int × NullPeer := c.send a .initial true

/-- The crypto stream of a level, as the other side gets it. -/
def stream (level : EncryptionLevel) (c : NullPeer) : Bytes :=
  (c.submitted.filter (·.1 == level)).flatMap Prod.snd

/-- The buffer that has been submitted at a level. -/
def tx (level : EncryptionLevel) (c : NullPeer) : Bytes :=
  if level = .initial then c.txInitial else c.txHandshake

end NullPeer

/-! ## Both ends -/

/-- One end of the connection, with the result of its last call and how much it has received of
the other's streams. -/
structure Party where
  conn : UnencryptedConn NullPeer
  rv : Int := 0
  readInitial : Nat := 0
  readHandshake : Nat := 0

namespace Party

def read (level : EncryptionLevel) (p : Party) : Nat :=
  if level = .initial then p.readInitial else p.readHandshake

/-- ngtcp2 passes on the next `n` bytes of a stream. -/
def receive (a : Ngtcp2Answers) (level : EncryptionLevel) (n : Nat) (stream : Bytes) (p : Party) :
    Party :=
  let data := (stream.drop (p.read level)).take n
  let r := p.conn.unencryptedRecvCryptoData (NullPeer.unencryptedHandleMessage a) level data
  { conn := r.2
    rv := r.1
    readInitial := if level = .initial then p.readInitial + n else p.readInitial
    readHandshake := if level = .initial then p.readHandshake else p.readHandshake + n }

/-- ngtcp2 can pass on `n` bytes. -/
structure Ready (level : EncryptionLevel) (n : Nat) (stream : Bytes) (p : Party) : Prop where
  ok : p.rv = 0
  crypto : UnencryptedConn.Crypto level
  pos : 0 < n
  sent : p.read level + n ≤ stream.length
  key : level = .handshake → NullKey.rxHandshake ∈ p.conn.conn.keys

end Party

structure Exchange where
  client : Party
  server : Party

/-- What ngtcp2 passes on next: to the server or to the client, at which level, how many bytes. -/
structure Delivery where
  toServer : Bool
  level : EncryptionLevel
  n : Nat
  deriving DecidableEq, Repr

namespace Exchange

variable (client server : Ngtcp2Answers)

def start : Exchange where
  client :=
    let r := NullPeer.unencryptedClientInitial client { inbound := false }
    { conn := { conn := r.2 }, rv := r.1 }
  server := { conn := { conn := { inbound := true } } }

def deliver (s : Exchange) (d : Delivery) : Exchange :=
  if d.toServer then
    { s with server := s.server.receive server d.level d.n (s.client.conn.conn.stream d.level) }
  else { s with client := s.client.receive client d.level d.n (s.server.conn.conn.stream d.level) }

def Enabled (s : Exchange) (d : Delivery) : Prop :=
  if d.toServer then s.server.Ready d.level d.n (s.client.conn.conn.stream d.level)
  else s.client.Ready d.level d.n (s.server.conn.conn.stream d.level)

def machine : Machine Exchange Delivery Fault where
  initial s := s = start client
  enabled := Enabled
  step s d := .ok (s.deliver client server d)

/-- How much has been passed on. -/
def total (s : Exchange) : Nat :=
  s.client.readInitial + s.client.readHandshake + s.server.readInitial + s.server.readHandshake

end Exchange

/-! ## One message in a stream -/

/-- The message with a payload. -/
def nullMessage (payload : Bytes) : Bytes :=
  setPayloadLen (unencryptedHandshakeMagic ++ [0, 0] ++ payload)

theorem nullMessage_ne_nil (payload : Bytes) : nullMessage payload ≠ [] := by
  simp [nullMessage, setPayloadLen, unencryptedHandshakeMagic]

theorem next_nullMessage {payload : Bytes} (hlen : payload.length ≤ 512) (more : Bytes) :
    unencryptedFraming.next (nullMessage payload ++ more) =
      some ((nullMessage payload).length, .ok payload) := by
  have hsent : unencryptedSend ((some payload).map .ok) = .ok (nullMessage payload) := rfl
  exact nextMessage_sent hsent (by simpa using hlen.trans_lt (by decide)) more

/-- A part of a message is not a message. -/
theorem next_part {payload : Bytes} (hlen : payload.length ≤ 512) {k : Nat}
    (hk : k < (nullMessage payload).length) :
    unencryptedFraming.next ((nullMessage payload).take k) = none := by
  cases hnext : unencryptedFraming.next ((nullMessage payload).take k) with
  | none => rfl
  | some x =>
    obtain ⟨m, r⟩ := x
    have hwhole := unencryptedFraming.extend hnext ((nullMessage payload).drop k)
    rw [List.take_append_drop, ← List.append_nil (nullMessage payload),
      next_nullMessage hlen] at hwhole
    obtain ⟨rfl, -⟩ := Prod.mk.inj (Option.some.inj hwhole)
    have hle := unencryptedFraming.length_le hnext
    rw [List.length_take] at hle
    omega

section Receive

variable {σ : Type} {handle : EncryptionLevel → Bytes → σ → Int × σ} {level : EncryptionLevel}
  {c : UnencryptedConn σ} {payload : Bytes} {k n : Nat}

theorem take_append_chunk (m : Bytes) (k n : Nat) :
    m.take k ++ (m.drop k).take n = m.take (k + n) := List.take_add.symm

/-- A chunk that does not complete the message is kept. -/
theorem recv_part (hlevel : UnencryptedConn.Crypto level) (hlen : payload.length ≤ 512)
    (hrx : c.rx level = (nullMessage payload).take k)
    (hpart : k + n < (nullMessage payload).length) :
    c.unencryptedRecvCryptoData handle level (((nullMessage payload).drop k).take n) =
      (0, c.put level { state := c.conn, rest := (nullMessage payload).take (k + n) }) := by
  rw [UnencryptedConn.unencryptedRecvCryptoData_eq hlevel, hrx, take_append_chunk,
    Framing.drain_of_none (next_part hlen hpart)]
  rfl

/-- The chunk that completes the message has it handled. -/
theorem recv_whole (hlevel : UnencryptedConn.Crypto level) (hlen : payload.length ≤ 512)
    (hrx : c.rx level = (nullMessage payload).take k)
    (hwhole : k + n = (nullMessage payload).length) {s : σ}
    (hhandle : handle level payload c.conn = (0, s)) :
    c.unencryptedRecvCryptoData handle level (((nullMessage payload).drop k).take n) =
      (0, c.put level { frames := [payload], state := s, rest := [] }) := by
  have hnext : unencryptedFraming.next (nullMessage payload) =
      some ((nullMessage payload).length, .ok payload) := by
    simpa using next_nullMessage hlen []
  have hfail : failure (handle level) payload c.conn = (none, s) := by simp [failure, hhandle]
  rw [UnencryptedConn.unencryptedRecvCryptoData_eq hlevel, hrx, take_append_chunk, hwhole,
    List.take_length, Framing.drain_of_ok hnext (by rw [hfail]), List.drop_length, hfail,
    Framing.drain_of_none unencryptedFraming.next_nil]
  rfl

end Receive

/-! ## Where the peers are -/

/-- Transport parameters as they are known after they have been received; none are sent as an
empty payload. -/
def known (params : Bytes) : Option Bytes := if params.isEmpty then none else some params

/-- The client after as many messages, with the parameters of both sides. -/
def clientAt (pc ps : Bytes) : Nat → NullPeer
  | 0 =>
    { inbound := false
      txInitial := nullMessage pc
      submitted := [(.initial, nullMessage pc)] }
  | 1 => { clientAt pc ps 0 with keys := [.rxHandshake, .txHandshake] }
  | _ + 2 =>
    { inbound := false
      remoteParams := known ps
      keys := [.rxHandshake, .txHandshake, .rx, .tx]
      txInitial := nullMessage pc
      txHandshake := nullMessage []
      submitted := [(.initial, nullMessage pc), (.handshake, nullMessage [])]
      completed := 1 }

/-- The server after as many messages. -/
def serverAt (pc ps : Bytes) : Nat → NullPeer
  | 0 => { inbound := true }
  | 1 =>
    { inbound := true
      remoteParams := known pc
      keys := [.rxHandshake, .txHandshake, .tx]
      txInitial := nullMessage []
      txHandshake := nullMessage ps
      submitted := [(.initial, nullMessage []), (.handshake, nullMessage ps)] }
  | _ + 2 =>
    { serverAt pc ps 1 with keys := [.rxHandshake, .txHandshake, .tx, .rx], completed := 1 }

/-- ngtcp2 can encode the parameters of each side, in the space that there is for it, and reads
those of the other, and nothing else fails. -/
structure Compatible (client server : Ngtcp2Answers) (pc ps : Bytes) : Prop where
  client_params : client.localParams = .ok pc
  server_params : server.localParams = .ok ps
  client_length : pc.length ≤ 512
  server_length : ps.length ≤ 512
  client_reads : client.readParams ps = 0
  server_reads : server.readParams pc = 0
  client_keys : ∀ key, client.installKey key = 0
  server_keys : ∀ key, server.installKey key = 0
  client_submits : ∀ level, client.submit level = 0
  server_submits : ∀ level, server.submit level = 0

namespace Compatible

variable {client server : Ngtcp2Answers} {pc ps : Bytes}

theorem client_start (h : Compatible client server pc ps) :
    NullPeer.unencryptedClientInitial client { inbound := false } = (0, clientAt pc ps 0) := by
  simp [NullPeer.unencryptedClientInitial, NullPeer.send, h.client_params, h.client_submits,
    unencryptedSend, clientAt, nullMessage]

theorem client_initial (h : Compatible client server pc ps) :
    NullPeer.unencryptedHandleMessage client .initial [] (clientAt pc ps 0) =
      (0, clientAt pc ps 1) := by
  simp [NullPeer.unencryptedHandleMessage, andThen, NullPeer.installKey, h.client_keys, clientAt]

theorem client_handshake (h : Compatible client server pc ps) :
    NullPeer.unencryptedHandleMessage client .handshake ps (clientAt pc ps 1) =
      (0, clientAt pc ps 2) := by
  by_cases hempty : ps.isEmpty <;>
  simp [NullPeer.unencryptedHandleMessage, andThen, NullPeer.installKey, NullPeer.readParams,
    NullPeer.send, NullPeer.unencryptedCompleteHandshake, unencryptedSend, h.client_keys,
    h.client_reads, h.client_submits, clientAt, known, hempty, nullMessage]

theorem server_initial (h : Compatible client server pc ps) :
    NullPeer.unencryptedHandleMessage server .initial pc (serverAt pc ps 0) =
      (0, serverAt pc ps 1) := by
  by_cases hempty : pc.isEmpty <;>
  simp [NullPeer.unencryptedHandleMessage, andThen, NullPeer.installKey, NullPeer.readParams,
    NullPeer.send, unencryptedSend, h.server_keys, h.server_params,
    h.server_reads, h.server_submits, serverAt, known, hempty, nullMessage]

theorem server_handshake (h : Compatible client server pc ps) :
    NullPeer.unencryptedHandleMessage server .handshake [] (serverAt pc ps 1) =
      (0, serverAt pc ps 2) := by
  simp [NullPeer.unencryptedHandleMessage, andThen, NullPeer.installKey,
    NullPeer.unencryptedCompleteHandshake, h.server_keys, serverAt]

end Compatible

section Streams

variable (pc ps : Bytes) (i : Nat)

@[simp] theorem stream_clientAt_initial : (clientAt pc ps i).stream .initial = nullMessage pc := by
  rcases i with _ | _ | i <;> simp [clientAt, NullPeer.stream]

@[simp] theorem stream_clientAt_handshake :
    (clientAt pc ps i).stream .handshake = if 2 ≤ i then nullMessage [] else [] := by
  rcases i with _ | _ | i <;> simp [clientAt, NullPeer.stream]

@[simp] theorem stream_serverAt_initial :
    (serverAt pc ps i).stream .initial = if 1 ≤ i then nullMessage [] else [] := by
  rcases i with _ | _ | i <;> simp [serverAt, NullPeer.stream]

@[simp] theorem stream_serverAt_handshake :
    (serverAt pc ps i).stream .handshake = if 1 ≤ i then nullMessage ps else [] := by
  rcases i with _ | _ | i <;> simp [serverAt, NullPeer.stream]

/-- Each buffer is submitted once, and not written to afterwards. -/
theorem tx_clientAt {level : EncryptionLevel} (hlevel : UnencryptedConn.Crypto level) :
    (clientAt pc ps i).tx level = (clientAt pc ps i).stream level := by
  rcases hlevel with rfl | rfl <;> rcases i with _ | _ | i <;>
    simp [clientAt, NullPeer.tx, NullPeer.stream]

theorem tx_serverAt {level : EncryptionLevel} (hlevel : UnencryptedConn.Crypto level) :
    (serverAt pc ps i).tx level = (serverAt pc ps i).stream level := by
  rcases hlevel with rfl | rfl <;> rcases i with _ | _ | i <;>
    simp [serverAt, NullPeer.tx, NullPeer.stream]

theorem rxHandshake_mem_clientAt : NullKey.rxHandshake ∈ (clientAt pc ps i).keys ↔ 1 ≤ i := by
  rcases i with _ | _ | i <;> simp [clientAt]

theorem rxHandshake_mem_serverAt : NullKey.rxHandshake ∈ (serverAt pc ps i).keys ↔ 1 ≤ i := by
  rcases i with _ | _ | i <;> simp [serverAt]

end Streams

/-! ## One party -/

/-- How far a party is with a stream of at most one message. -/
structure Receiving (m : Bytes) (done : Prop) (rx : Bytes) (read : Nat) : Prop where
  part : ¬ done → rx = m.take read
  short : ¬ done → m ≠ [] → read < m.length
  whole : done → rx = [] ∧ read = m.length
  le : read ≤ m.length

theorem receiving_nil {m : Bytes} {done : Prop} (hnot : ¬ done) : Receiving m done [] 0 :=
  ⟨fun _ => rfl, fun _ hm => List.length_pos_iff.mpr hm, fun hd => absurd hd hnot, Nat.zero_le _⟩

/-- A message has been sent where there was none. -/
theorem Receiving.sent {done : Prop} {rx m : Bytes} {read : Nat} (h : Receiving [] done rx read)
    (hnot : ¬ done) : Receiving m done rx read := by
  obtain rfl : read = 0 := Nat.le_zero.mp h.le
  obtain rfl : rx = [] := h.part hnot
  exact receiving_nil hnot

/-- Which of the two messages that a party gets is the one of this level. -/
def EncryptionLevel.turn (level : EncryptionLevel) : Nat := if level = .initial then 0 else 1

namespace Party

open UnencryptedConn

/-- The party has handled `k` messages of the streams. -/
structure At (conns : Nat → NullPeer) (streams : EncryptionLevel → Bytes) (k : Nat) (p : Party) :
    Prop where
  conn : p.conn.conn = conns k
  ok : p.rv = 0
  receiving : ∀ level, Crypto level →
    Receiving (streams level) (level.turn < k) (p.conn.rx level) (p.read level)

variable {a : Ngtcp2Answers} {conns : Nat → NullPeer} {streams streams' : EncryptionLevel → Bytes}
  {k n : Nat} {p : Party} {level : EncryptionLevel} {payload : Bytes}

/-- The other party sends its messages. -/
theorem At.sent (h : p.At conns streams k) (hsent : ∀ level, Crypto level →
      streams' level = streams level ∨ streams level = [] ∧ k ≤ level.turn) :
    p.At conns streams' k where
  conn := h.conn
  ok := h.ok
  receiving level hlevel := by
    have hrecv := h.receiving level hlevel
    rcases hsent level hlevel with heq | ⟨hnil, hturn⟩
    · rwa [heq]
    · rw [hnil] at hrecv
      exact hrecv.sent (by omega)

theorem read_receive (hlevel : Crypto level) (stream : Bytes) :
    (p.receive a level n stream).read level = p.read level + n := by
  rcases hlevel with rfl | rfl <;> rfl

theorem read_receive_of_ne {level' : EncryptionLevel} (hlevel : Crypto level)
    (hlevel' : Crypto level') (hne : level' ≠ level) (stream : Bytes) :
    (p.receive a level n stream).read level' = p.read level' := by
  rcases hlevel with rfl | rfl <;> rcases hlevel' with rfl | rfl
  · exact absurd rfl hne
  · rfl
  · rfl
  · exact absurd rfl hne

/-- A delivery that succeeds takes the party to where its own level says, as nothing changes at
the other. -/
theorem At.received (h : p.At conns streams k) (hlevel : Crypto level) {k' : Nat}
    {o : Framing.Outcome UInt8 Bytes Int NullPeer}
    (hrecv : p.conn.unencryptedRecvCryptoData (NullPeer.unencryptedHandleMessage a) level
      (((streams level).drop (p.read level)).take n) = (0, p.conn.put level o))
    (hstate : o.state = conns k')
    (hlevel' : ∀ level', Crypto level' → level' ≠ level → (level'.turn < k' ↔ level'.turn < k))
    (hrest : Receiving (streams level) (level.turn < k') o.rest (p.read level + n)) :
    (p.receive a level n (streams level)).At conns streams k' := by
  have hconn : (p.receive a level n (streams level)).conn = p.conn.put level o :=
    congrArg Prod.snd hrecv
  refine ⟨?_, congrArg Prod.fst hrecv, ?_⟩
  · rw [hconn]
    exact hstate
  · intro level' hcrypto
    rw [hconn]
    by_cases hsame : level' = level
    · subst hsame
      rw [rx_put, read_receive hlevel]
      exact hrest
    · rw [rx_put_of_ne hlevel hcrypto hsame, read_receive_of_ne hlevel hcrypto hsame,
        hlevel' level' hcrypto hsame]
      exact h.receiving level' hcrypto

/-- The messages come in turn: the one at the handshake level cannot be read before the other. -/
theorem At.turn (h : p.At conns streams k) (hready : p.Ready level n (streams level))
    (hkeys : NullKey.rxHandshake ∈ (conns k).keys → 1 ≤ k) : k = level.turn := by
  have hrecv := h.receiving level hready.crypto
  have hsent := hready.sent
  have hpos := hready.pos
  have hle : k ≤ level.turn := by
    by_contra hlt
    have := (hrecv.whole (by omega)).2
    omega
  rcases hready.crypto with rfl | rfl
  · exact Nat.le_zero.mp hle
  · have hkey := hready.key rfl
    rw [h.conn] at hkey
    exact le_antisymm hle (hkeys hkey)

/-- A delivery either adds to a part of a message, or has the message handled. -/
theorem At.receive (h : p.At conns streams k) (hready : p.Ready level n (streams level))
    (hkeys : NullKey.rxHandshake ∈ (conns k).keys → 1 ≤ k) (hlen : payload.length ≤ 512)
    (hstream : streams level = nullMessage payload)
    (hhandle : k = level.turn →
      NullPeer.unencryptedHandleMessage a level payload (conns k) = (0, conns (k + 1))) :
    (p.receive a level n (streams level)).At conns streams k ∨
      (p.receive a level n (streams level)).At conns streams (k + 1) := by
  have hlevel := hready.crypto
  have hsent := hready.sent
  have hturn : k = level.turn := h.turn hready hkeys
  have hrecv := h.receiving level hlevel
  have hpart : p.conn.rx level = (nullMessage payload).take (p.read level) := by
    rw [← hstream]
    exact hrecv.part (by omega)
  rcases hsent.lt_or_eq with hshort | hwhole
  · left
    have hchunk : p.conn.unencryptedRecvCryptoData (NullPeer.unencryptedHandleMessage a) level
        (((nullMessage payload).drop (p.read level)).take n) = _ :=
      recv_part hlevel hlen hpart (by rwa [← hstream])
    rw [← hstream] at hchunk
    refine h.received hlevel hchunk h.conn (fun _ _ _ => Iff.rfl) ⟨fun _ => rfl, fun _ _ => hshort,
      fun hd => absurd hd (by omega), hsent⟩
  · right
    have hchunk : p.conn.unencryptedRecvCryptoData (NullPeer.unencryptedHandleMessage a) level
        (((nullMessage payload).drop (p.read level)).take n) = _ :=
      recv_whole hlevel hlen hpart (by rwa [← hstream])
        (h.conn ▸ hhandle hturn)
    rw [← hstream] at hchunk
    refine h.received hlevel hchunk rfl ?_ ⟨fun hd => absurd (by omega) hd,
      fun hd => absurd (by omega) hd, fun _ => ⟨rfl, hwhole⟩, hsent⟩
    -- the other level has its turn before or after
    intro level' hlevel' hne
    rcases hlevel with rfl | rfl <;> rcases hlevel' with rfl | rfl
    · exact absurd rfl hne
    · rw [hturn]
      decide
    · rw [hturn]
      decide
    · exact absurd rfl hne

/-- What is left of a message can be passed on when it is its turn. -/
theorem At.ready (h : p.At conns streams k) (hlevel : Crypto level) (hturn : k = level.turn)
    (hsent : streams level ≠ []) (hkeys : 1 ≤ k → NullKey.rxHandshake ∈ (conns k).keys) :
    p.Ready level ((streams level).length - p.read level) (streams level) where
  ok := h.ok
  crypto := hlevel
  pos := Nat.sub_pos_of_lt ((h.receiving level hlevel).short (by omega) hsent)
  sent := by
    have := (h.receiving level hlevel).le
    omega
  key := by
    rintro rfl
    rw [h.conn]
    exact hkeys hturn.ge

end Party

/-! ## Every interleaving -/

namespace Exchange

variable {client server : Ngtcp2Answers} {pc ps : Bytes} {i j : Nat} {s : Exchange} {d : Delivery}

/-- The client has handled `i` messages and the server `j`: the server answers before the client
goes on, and is done after the client. -/
structure At (pc ps : Bytes) (i j : Nat) (s : Exchange) : Prop where
  client : s.client.At (clientAt pc ps) (fun level => (serverAt pc ps j).stream level) i
  server : s.server.At (serverAt pc ps) (fun level => (clientAt pc ps i).stream level) j
  client_le : i ≤ 2
  server_le : j ≤ 2
  keyed : 1 ≤ i → 1 ≤ j
  ordered : 2 ≤ j → 2 ≤ i

theorem at_start (h : Compatible client server pc ps) : At pc ps 0 0 (start client) where
  client :=
    ⟨congrArg Prod.snd h.client_start, congrArg Prod.fst h.client_start, fun level hlevel => by
      rcases hlevel with rfl | rfl <;> exact receiving_nil (by omega)⟩
  server := ⟨by simp [start, serverAt], rfl, fun level hlevel => by
    rcases hlevel with rfl | rfl <;> exact receiving_nil (by omega)⟩
  client_le := by omega
  server_le := by omega
  keyed := by omega
  ordered := by omega

theorem At.to_client (h : At pc ps i j s) (hcompat : Compatible client server pc ps)
    {level : EncryptionLevel} {n : Nat}
    (hready : s.client.Ready level n (s.server.conn.conn.stream level)) :
    ∃ i', At pc ps i' j { s with
      client := s.client.receive client level n (s.server.conn.conn.stream level) } := by
  rw [h.server.conn] at hready ⊢
  have hkeys : NullKey.rxHandshake ∈ (clientAt pc ps i).keys → 1 ≤ i :=
    (rxHandshake_mem_clientAt pc ps i).mp
  have hturn : i = level.turn := h.client.turn hready hkeys
  have hsent : (serverAt pc ps j).stream level ≠ [] := by
    have := hready.sent
    have := hready.pos
    exact List.length_pos_iff.mp (by omega)
  rcases hready.crypto with rfl | rfl
  · obtain rfl : i = 0 := hturn
    have hkeyed : 1 ≤ j := by
      by_contra hj
      simp [hj] at hsent
    rcases h.client.receive hready hkeys (by simp) (by simp [hkeyed])
      (fun _ => hcompat.client_initial) with hclient | hclient
    · exact ⟨0, { h with client := hclient }⟩
    · have hordered := h.ordered
      refine ⟨1, hclient, h.server.sent ?_, by omega, h.server_le, fun _ => hkeyed, by omega⟩
      rintro level (rfl | rfl) <;> simp
  · obtain rfl : i = 1 := hturn
    have hkeyed : 1 ≤ j := h.keyed le_rfl
    have hordered : j ≤ 1 := by
      have := h.ordered
      omega
    rcases h.client.receive hready hkeys hcompat.server_length (by simp [hkeyed])
      (fun _ => hcompat.client_handshake) with hclient | hclient
    · exact ⟨1, { h with client := hclient }⟩
    · refine ⟨2, hclient, h.server.sent ?_, le_rfl, h.server_le, fun _ => hkeyed, by omega⟩
      rintro level (rfl | rfl)
      · simp
      · exact .inr ⟨by simp, hordered⟩

theorem At.to_server (h : At pc ps i j s) (hcompat : Compatible client server pc ps)
    {level : EncryptionLevel} {n : Nat}
    (hready : s.server.Ready level n (s.client.conn.conn.stream level)) :
    ∃ j', At pc ps i j' { s with
      server := s.server.receive server level n (s.client.conn.conn.stream level) } := by
  rw [h.client.conn] at hready ⊢
  have hkeys : NullKey.rxHandshake ∈ (serverAt pc ps j).keys → 1 ≤ j :=
    (rxHandshake_mem_serverAt pc ps j).mp
  have hturn : j = level.turn := h.server.turn hready hkeys
  have hsent : (clientAt pc ps i).stream level ≠ [] := by
    have := hready.sent
    have := hready.pos
    exact List.length_pos_iff.mp (by omega)
  rcases hready.crypto with rfl | rfl
  · obtain rfl : j = 0 := hturn
    have hstart : i = 0 := by
      have := h.keyed
      omega
    rcases h.server.receive hready hkeys hcompat.client_length (by simp)
      (fun _ => hcompat.server_initial) with hserver | hserver
    · exact ⟨0, { h with server := hserver }⟩
    · refine ⟨1, h.client.sent ?_, hserver, h.client_le, by omega, fun _ => le_rfl, by omega⟩
      rintro level (rfl | rfl)
      · exact .inr ⟨by simp, hstart.le⟩
      · exact .inr ⟨by simp, by simp [hstart]⟩
  · obtain rfl : j = 1 := hturn
    have hdone : 2 ≤ i := by
      by_contra hi
      simp [hi] at hsent
    rcases h.server.receive hready hkeys (by simp) (by simp [hdone])
      (fun _ => hcompat.server_handshake) with hserver | hserver
    · exact ⟨1, { h with server := hserver }⟩
    · refine ⟨2, h.client.sent ?_, hserver, h.client_le, le_rfl, by omega, fun _ => hdone⟩
      rintro level (rfl | rfl) <;> simp

theorem At.deliver (h : At pc ps i j s) (hcompat : Compatible client server pc ps)
    (henabled : s.Enabled d) : ∃ i' j', At pc ps i' j' (s.deliver client server d) := by
  unfold Enabled at henabled
  unfold Exchange.deliver
  split at henabled
  next hto =>
    rw [if_pos hto]
    obtain ⟨j', hj'⟩ := h.to_server hcompat henabled
    exact ⟨i, j', hj'⟩
  next hto =>
    rw [if_neg hto]
    obtain ⟨i', hi'⟩ := h.to_client hcompat henabled
    exact ⟨i', j, hi'⟩

theorem at_reachable (hcompat : Compatible client server pc ps)
    (hs : (machine client server).Reachable s) : ∃ i j, At pc ps i j s := by
  refine hs.keep (P := fun s => ∃ i j, At pc ps i j s) ?_ ?_
  · rintro s rfl
    exact ⟨0, 0, at_start hcompat⟩
  · rintro s d t ⟨i, j, h⟩ henabled ⟨⟩
    exact h.deliver hcompat henabled

/-- There is always more to pass on until both are done. -/
theorem At.progress (h : At pc ps i j s) : (∃ d, s.Enabled d) ∨ i = 2 ∧ j = 2 := by
  have hclient : ∀ level, UnencryptedConn.Crypto level → i = level.turn →
      (serverAt pc ps j).stream level ≠ [] → ∃ d, s.Enabled d := by
    intro level hlevel hturn hsent
    have hready := h.client.ready hlevel hturn hsent (rxHandshake_mem_clientAt pc ps i).mpr
    rw [← h.server.conn] at hready
    exact ⟨⟨false, level, _⟩, hready⟩
  have hserver : ∀ level, UnencryptedConn.Crypto level → j = level.turn →
      (clientAt pc ps i).stream level ≠ [] → ∃ d, s.Enabled d := by
    intro level hlevel hturn hsent
    have hready := h.server.ready hlevel hturn hsent (rxHandshake_mem_serverAt pc ps j).mpr
    rw [← h.client.conn] at hready
    exact ⟨⟨true, level, _⟩, hready⟩
  have hi := h.client_le
  have hj := h.server_le
  by_cases hstart : j = 0
  · left
    exact hserver .initial (.inl rfl) hstart (by simp [nullMessage_ne_nil])
  have hkeyed : 1 ≤ j := Nat.pos_of_ne_zero hstart
  by_cases hinitial : i = 0
  · left
    exact hclient .initial (.inl rfl) hinitial (by simp [hkeyed, nullMessage_ne_nil])
  by_cases hhandshake : i = 1
  · left
    exact hclient .handshake (.inr rfl) hhandshake (by simp [hkeyed, nullMessage_ne_nil])
  have hdone : i = 2 := by omega
  by_cases hecho : j = 1
  · left
    exact hserver .handshake (.inr rfl) hecho (by simp [hdone, nullMessage_ne_nil])
  · right
    omega

theorem length_nullMessage (payload : Bytes) :
    (nullMessage payload).length = 10 + payload.length := by
  simp [nullMessage, setPayloadLen, unencryptedHandshakeMagic]
  omega

theorem At.total_le (h : At pc ps i j s) : s.total ≤ 40 + pc.length + ps.length := by
  have hsent : ∀ (c : Prop) [Decidable c] (payload : Bytes),
      (if c then nullMessage payload else []).length ≤ 10 + payload.length := by
    intro c _ payload
    split
    · rw [length_nullMessage]
    · simp
  have hci : s.client.readInitial ≤ 10 + 0 := by
    apply (h.client.receiving .initial (.inl rfl)).le.trans
    rw [stream_serverAt_initial]
    apply hsent
  have hch : s.client.readHandshake ≤ 10 + ps.length := by
    apply (h.client.receiving .handshake (.inr rfl)).le.trans
    rw [stream_serverAt_handshake]
    apply hsent
  have hvi : s.server.readInitial ≤ 10 + pc.length := by
    apply (h.server.receiving .initial (.inl rfl)).le.trans
    rw [stream_clientAt_initial, length_nullMessage]
  have hvh : s.server.readHandshake ≤ 10 + 0 := by
    apply (h.server.receiving .handshake (.inr rfl)).le.trans
    rw [stream_clientAt_handshake]
    apply hsent
  unfold total
  omega

theorem total_deliver (client server : Ngtcp2Answers) (s : Exchange) (d : Delivery) :
    (s.deliver client server d).total = s.total + d.n := by
  by_cases hto : d.toServer = true <;> by_cases hlevel : d.level = .initial <;>
    simp [deliver, total, Party.receive, hto, hlevel] <;> omega

/-- Both ends have completed the handshake, once, with the parameters of the other and all keys. -/
structure Completed (pc ps : Bytes) (s : Exchange) : Prop where
  client : s.client.conn.conn.completed = 1
  server : s.server.conn.conn.completed = 1
  client_knows : s.client.conn.conn.remoteParams = known ps
  server_knows : s.server.conn.conn.remoteParams = known pc
  client_keys : ∀ key, key ∈ s.client.conn.conn.keys
  server_keys : ∀ key, key ∈ s.server.conn.conn.keys

theorem At.completed (h : At pc ps 2 2 s) : s.Completed pc ps := by
  have hclient := h.client.conn
  have hserver := h.server.conn
  constructor
  case client_keys =>
    intro key
    rw [hclient]
    cases key <;> simp [clientAt]
  case server_keys =>
    intro key
    rw [hserver]
    cases key <;> simp [serverAt]
  all_goals simp [hclient, hserver, clientAt, serverAt]

theorem Enabled.pos (h : s.Enabled d) : 0 < d.n := by
  unfold Enabled at h
  split at h
  · exact h.pos
  · exact h.pos

theorem total_lt_deliver (client server : Ngtcp2Answers) (h : s.Enabled d) :
    s.total < (s.deliver client server d).total := by
  rw [total_deliver]
  exact Nat.lt_add_of_pos_right h.pos

theorem total_le (hcompat : Compatible client server pc ps)
    (hs : (machine client server).Reachable s) : s.total ≤ 40 + pc.length + ps.length := by
  obtain ⟨i, j, h⟩ := at_reachable hcompat hs
  exact h.total_le

theorem completed_of_stuck (hcompat : Compatible client server pc ps)
    (hs : (machine client server).Reachable s) (hnone : ∀ d, ¬ s.Enabled d) :
    s.Completed pc ps := by
  obtain ⟨i, j, h⟩ := at_reachable hcompat hs
  rcases h.progress with ⟨d, henabled⟩ | ⟨rfl, rfl⟩
  · exact absurd henabled (hnone d)
  · exact h.completed

theorem exists_completed (hcompat : Compatible client server pc ps)
    (hs : (machine client server).Reachable s) :
    ∃ t, (machine client server).Steps s t ∧ t.Completed pc ps := by
  obtain ⟨t, ht, hnone⟩ := hs.stops (μ := fun s => 40 + pc.length + ps.length - s.total)
    fun s d hs henabled => by
      have hlt := total_lt_deliver client server henabled
      have hle := total_le hcompat (hs.step henabled rfl)
      exact ⟨_, rfl, by omega⟩
  exact ⟨t, ht, completed_of_stuck hcompat (hs.steps ht) hnone⟩

/-- However the streams of two compatible peers are cut and interleaved, no call fails, the server
does not complete before the client, neither completes twice, what a side knows of the other is
what the other has sent, and each buffer still holds what was submitted from it. -/
theorem handshake_agrees (hcompat : Compatible client server pc ps)
    (hs : (machine client server).Reachable s) :
    let c := s.client.conn.conn
    let v := s.server.conn.conn
    (s.client.rv = 0 ∧ s.server.rv = 0) ∧ (v.completed ≤ c.completed ∧ c.completed ≤ 1) ∧
      c.remoteParams = (if c.completed = 1 then known ps else none) ∧
      v.remoteParams = (if .tx ∈ v.keys then known pc else none) ∧
      (v.submitted ≠ [] → .tx ∈ v.keys) ∧
      ∀ level, UnencryptedConn.Crypto level →
        c.tx level = c.stream level ∧ v.tx level = v.stream level := by
  intro c v
  obtain ⟨i, j, h⟩ := at_reachable hcompat hs
  have hc : c = clientAt pc ps i := h.client.conn
  have hv : v = serverAt pc ps j := h.server.conn
  have hi := h.client_le
  have hj := h.server_le
  refine ⟨⟨h.client.ok, h.server.ok⟩, ⟨?_, ?_⟩, ?_, ?_, ?_, ?_⟩
  · have hordered := h.ordered
    rw [hc, hv]
    interval_cases i <;> interval_cases j <;> simp [clientAt, serverAt] at hordered ⊢
  · rw [hc]
    interval_cases i <;> simp [clientAt]
  · rw [hc]
    interval_cases i <;> simp [clientAt]
  · rw [hv]
    interval_cases j <;> simp [serverAt]
  · rw [hv]
    interval_cases j <;> simp [serverAt]
  · intro level hlevel
    rw [hc, hv]
    exact ⟨tx_clientAt pc ps i hlevel, tx_serverAt pc ps j hlevel⟩

/-- Transport parameters: ids, lengths and values. Ids and lengths are those of one byte here. -/
def readTransportParams : Nat → Bytes → Option (List (UInt8 × Bytes))
  | _, [] => some []
  | fuel + 1, id :: len :: rest =>
    if 64 ≤ id ∨ 64 ≤ len ∨ rest.length < len.toNat then none
    else (readTransportParams fuel (rest.drop len.toNat)).map ((id, rest.take len.toNat) :: ·)
  | _, _ => none

/-- No parameter comes twice, and the one with the source id is not missing. -/
def wellFormedParams (payload : Bytes) : Bool :=
  match readTransportParams payload.length payload with
  | none => false
  | some params => decide (params.map Prod.fst).Nodup && (params.map Prod.fst).contains 15

/-- ngtcp2 with these parameters. It refuses only parameters that are not well-formed. -/
def nullAnswers (params : Bytes) : Ngtcp2Answers where
  localParams := .ok params
  readParams payload := if wellFormedParams payload then 0 else -1
  installKey _ := 0
  submit _ := 0

/-- An empty source id, and an idle timeout. -/
def clientParams : Bytes := [15, 0, 1, 1, 30]

/-- The client's first destination id, and an empty source id. -/
def serverParams : Bytes := [0, 8, 1, 2, 3, 4, 5, 6, 7, 8, 15, 0]

theorem compatible_nullAnswers :
    Compatible (nullAnswers clientParams) (nullAnswers serverParams) clientParams
      serverParams where
  client_params := rfl
  server_params := rfl
  client_length := by decide
  server_length := by decide
  client_reads := by decide
  server_reads := by decide
  client_keys _ := rfl
  server_keys _ := rfl
  client_submits _ := rfl
  server_submits _ := rfl

theorem handshake_agrees_completed :
    ∃ t, (machine (nullAnswers clientParams) (nullAnswers serverParams)).Reachable t ∧
      t.client.conn.conn.remoteParams = some serverParams ∧ t.client.rv = 0 ∧ t.server.rv = 0 := by
  obtain ⟨t, ht, hdone⟩ := exists_completed compatible_nullAnswers (.initial rfl)
  have hreach : (machine (nullAnswers clientParams) (nullAnswers serverParams)).Reachable t :=
    Machine.Reachable.steps (.initial rfl) ht
  obtain ⟨⟨hc, hv⟩, -, hparams, -⟩ := handshake_agrees compatible_nullAnswers hreach
  rw [if_pos hdone.client] at hparams
  exact ⟨t, hreach, hparams, hc, hv⟩

/-- Two compatible peers never get stuck: whatever ngtcp2 passes on next brings the handshake
nearer to its end, and the end is that both have completed it. -/
theorem handshake_completes (hcompat : Compatible client server pc ps)
    (hs : (machine client server).Reachable s) :
    (∀ d, s.Enabled d → s.total < (s.deliver client server d).total) ∧
      s.total ≤ 40 + pc.length + ps.length ∧
      ((∀ d, ¬ s.Enabled d) → s.Completed pc ps) ∧
      ∃ t, (machine client server).Steps s t ∧ t.Completed pc ps :=
  ⟨fun _ => total_lt_deliver client server, total_le hcompat hs, completed_of_stuck hcompat hs,
    exists_completed hcompat hs⟩

theorem handshake_completes_start :
    ∃ t, (machine (nullAnswers clientParams) (nullAnswers serverParams)).Steps
        (start (nullAnswers clientParams)) t ∧ t.Completed clientParams serverParams :=
  (handshake_completes compatible_nullAnswers (.initial rfl)).2.2.2

end Exchange

end Libquic
